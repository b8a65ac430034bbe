import Kryptolog.Library.Runs
import Mathlib.Data.Nat.Notation
import Mathlib.Data.List.Basic
import Mathlib.Tactic.Push

/-! # Transactions under READ COMMITTED

Sessions that run one transaction each, statement by statement, over one committed state. A
transaction is a program: at each point it reads, writes, commits or has ended.

* A reading statement sees the committed state of its instant with the session's own changes.
* A writing statement takes its snapshot when it starts and finishes when no other session holds
  a row that it needs. It is given both states: the snapshot decided which rows it is about, and
  it works on these rows as it finds them once they are free.
* Locks are held to the end of the transaction. A session may be aborted at any time, which is
  also how a deadlock ends.

`Rule` is the rely-guarantee rule: what every session keeps of its own facts, and what a commit
leaves of the facts of the others, where the two hold no lock in common.
-/

namespace Kryptolog.ReadCommitted
set_option autoImplicit false

open Runs

/-- What a writing statement leaves: the locks it took, its changes, and where to go on. -/
structure Outcome (κ ε P : Type) where
  locks : List κ
  effects : List ε
  next : P

/-- What a transaction does at a point. -/
inductive Op (σ κ ε P : Type)
  | select (next : σ → P)
  | write (exec : σ → σ → Outcome κ ε P)
  | commit (next : P)
  | halt

structure Machine (σ κ ε P ρ : Type) where
  apply : ε → σ → σ
  entry : ρ → P
  op : P → Op σ κ ε P

/-- A session. The snapshot is that of a writing statement that has started. -/
structure Session (σ κ ε P : Type) where
  point : P
  snapshot : Option σ
  held : List κ
  log : List ε

structure State (σ κ ε P : Type) where
  committed : σ
  sessions : List (Option (Session σ κ ε P))

/-- The session that arrived as number `i` is the one that a step is about. -/
inductive Action (ρ : Type)
  | arrive (r : ρ)
  | select (i : ℕ)
  | start (i : ℕ)
  | finish (i : ℕ)
  | commit (i : ℕ)
  | abort (i : ℕ)

def Action.isCommit {ρ : Type} : Action ρ → Bool
  | .commit _ => true
  | _ => false

variable {σ κ ε P ρ : Type}

/-- A session without locks and changes. -/
def Session.fresh (p : P) : Session σ κ ε P := ⟨p, none, [], []⟩

/-- Go on without locks or changes. -/
def Session.goto (t : Session σ κ ε P) (p : P) : Session σ κ ε P := ⟨p, none, t.held, t.log⟩

def Session.finish (t : Session σ κ ε P) (out : Outcome κ ε P) : Session σ κ ε P :=
  ⟨out.next, none, t.held ++ out.locks, t.log ++ out.effects⟩

namespace State

def start (c : σ) : State σ κ ε P := ⟨c, []⟩

def session (s : State σ κ ε P) (i : ℕ) : Option (Session σ κ ε P) := s.sessions[i]?.join

def put (s : State σ κ ε P) (i : ℕ) (t : Option (Session σ κ ε P)) : State σ κ ε P :=
  { s with sessions := s.sessions.set i t }

/-- Does a session other than `i` hold the lock? -/
def lockedFor [DecidableEq κ] (s : State σ κ ε P) (i : ℕ) (k : κ) : Bool :=
  (List.range s.sessions.length).any fun j => j != i && (s.session j).any (·.held.contains k)

@[simp] theorem session_start (c : σ) (i : ℕ) : (start c : State σ κ ε P).session i = none := by
  simp [start, session]

theorem session_put {s : State σ κ ε P} {i j : ℕ} {t : Option (Session σ κ ε P)}
    {u : Session σ κ ε P} (h : (s.put i t).session j = some u) :
    (i = j ∧ t = some u) ∨ (i ≠ j ∧ s.session j = some u) := by
  unfold session put at h
  rw [List.getElem?_set] at h
  by_cases hij : i = j
  · rw [if_pos hij] at h
    split at h
    · exact .inl ⟨hij, by simpa using h⟩
    · cases h
  · rw [if_neg hij] at h
    exact .inr ⟨hij, h⟩

theorem session_push {s : State σ κ ε P} {t u : Session σ κ ε P} {j : ℕ}
    (h : State.session { s with sessions := s.sessions ++ [some t] } j = some u) :
    u = t ∨ s.session j = some u := by
  unfold session at h
  rw [List.getElem?_append] at h
  split at h
  · exact .inr h
  · rw [List.getElem?_singleton] at h
    split at h
    · left
      simpa using h.symm
    · cases h

theorem session_put_self {s : State σ κ ε P} {i : ℕ} {t u : Session σ κ ε P}
    (h : s.session i = some t) : (s.put i (some u)).session i = some u := by
  have hi : i < s.sessions.length := by
    by_contra hlen
    rw [session, List.getElem?_eq_none (by omega)] at h
    cases h
  unfold session put
  rw [List.getElem?_set_self hi]
  rfl

theorem put_put {s : State σ κ ε P} {i : ℕ} {t u : Option (Session σ κ ε P)} :
    (s.put i t).put i u = s.put i u := by
  simp only [put, List.set_set]

/-- A session's own locks do not stop it. -/
theorem lockedFor_put [DecidableEq κ] {s : State σ κ ε P} {i : ℕ} {t : Option (Session σ κ ε P)} :
    (s.put i t).lockedFor i = s.lockedFor i := by
  funext k
  have hother : ∀ j, (j != i && ((s.put i t).session j).any (·.held.contains k)) =
      (j != i && (s.session j).any (·.held.contains k)) := by
    intro j
    by_cases hj : j = i
    · simp [hj]
    · have hsame : (s.put i t).session j = s.session j := by
        simp only [session, put, List.getElem?_set_ne (Ne.symm hj)]
      rw [hsame]
  simp only [lockedFor, hother]
  simp only [put, List.length_set]

theorem not_held_of_lockedFor [DecidableEq κ] {s : State σ κ ε P} {i j : ℕ} {k : κ}
    {u : Session σ κ ε P} (h : s.lockedFor i k = false) (hij : j ≠ i) (hu : s.session j = some u) :
    k ∉ u.held := by
  intro hk
  have hj : j < s.sessions.length := by
    by_contra hlen
    rw [session, List.getElem?_eq_none (by omega)] at hu
    cases hu
  unfold lockedFor at h
  rw [List.any_eq_false] at h
  have hno := h j (List.mem_range.mpr hj)
  simp [hij, hu, hk] at hno

end State

namespace Machine

variable (M : Machine σ κ ε P ρ)

/-- The committed state with the session's own changes. -/
def view (c : σ) (t : Session σ κ ε P) : σ := t.log.foldl (fun c e => M.apply e c) c

variable [DecidableEq κ]

def step (s : State σ κ ε P) : Action ρ → Option (State σ κ ε P)
  | .arrive r => some { s with sessions := s.sessions ++ [some (.fresh (M.entry r))] }
  | .select i => do
    let t ← s.session i
    match M.op t.point with
    | .select next => some (s.put i (some (t.goto (next (M.view s.committed t)))))
    | _ => none
  | .start i => do
    let t ← s.session i
    match M.op t.point with
    | .write _ => some (s.put i (some { t with snapshot := some (M.view s.committed t) }))
    | _ => none
  | .finish i => do
    let t ← s.session i
    match M.op t.point, t.snapshot with
    | .write exec, some snap =>
      let out := exec snap (M.view s.committed t)
      if out.locks.any (s.lockedFor i) then none else some (s.put i (some (t.finish out)))
    | _, _ => none
  | .commit i => do
    let t ← s.session i
    match M.op t.point with
    | .commit next =>
      some { s.put i (some (.fresh next)) with committed := M.view s.committed t }
    | _ => none
  | .abort i => some (s.put i none)

variable {M}

/-! ## What a step does -/

theorem step_select {s s' : State σ κ ε P} {i : ℕ} (h : M.step s (.select i) = some s') :
    ∃ t next, s.session i = some t ∧ M.op t.point = .select next ∧
      s' = s.put i (some (t.goto (next (M.view s.committed t)))) := by
  obtain ⟨t, ht, h⟩ := Option.bind_eq_some_iff.mp h
  cases hop : M.op t.point with
  | select next =>
    rw [hop] at h
    exact ⟨t, next, ht, hop, (Option.some.inj h).symm⟩
  | write | commit | halt =>
    rw [hop] at h
    cases h

/-- A reading statement, taken. -/
theorem select_eq {s : State σ κ ε P} {i : ℕ} {t : Session σ κ ε P} {next : σ → P}
    (ht : s.session i = some t) (hop : M.op t.point = .select next) :
    M.step s (.select i) = some (s.put i (some (t.goto (next (M.view s.committed t))))) := by
  refine Option.bind_eq_some_iff.mpr ⟨t, ht, ?_⟩
  rw [hop]

/-- A writing statement, taken by the only session that holds its rows. -/
theorem write_run {s : State σ κ ε P} {i : ℕ} {t : Session σ κ ε P} {exec : σ → σ → Outcome κ ε P}
    {out : Outcome κ ε P} (ht : s.session i = some t) (hop : M.op t.point = .write exec)
    (hout : exec (M.view s.committed t) (M.view s.committed t) = out)
    (hfree : out.locks.any (s.lockedFor i) = false) :
    Run (ofPartial M.step) s [.start i, .finish i] (s.put i (some (t.finish out))) := by
  have hstart : M.step s (.start i) =
      some (s.put i (some { t with snapshot := some (M.view s.committed t) })) := by
    refine Option.bind_eq_some_iff.mpr ⟨t, ht, ?_⟩
    rw [hop]
  have hsession := State.session_put_self (u := { t with snapshot := some (M.view s.committed t) }) ht
  have hfinish : M.step (s.put i (some { t with snapshot := some (M.view s.committed t) }))
      (.finish i) = some (s.put i (some (t.finish out))) := by
    refine Option.bind_eq_some_iff.mpr ⟨_, hsession, ?_⟩
    simp only [hop]
    change (if (exec (M.view s.committed t) (M.view s.committed t)).locks.any
      ((s.put i _).lockedFor i) = true then none else
        some ((s.put i _).put i (some (t.finish
          (exec (M.view s.committed t) (M.view s.committed t)))))) = _
    rw [hout, State.lockedFor_put, hfree, if_neg Bool.false_ne_true, State.put_put]
  exact .cons hstart (.single hfinish)

theorem step_start {s s' : State σ κ ε P} {i : ℕ} (h : M.step s (.start i) = some s') :
    ∃ t exec, s.session i = some t ∧ M.op t.point = .write exec ∧
      s' = s.put i (some { t with snapshot := some (M.view s.committed t) }) := by
  obtain ⟨t, ht, h⟩ := Option.bind_eq_some_iff.mp h
  cases hop : M.op t.point with
  | write exec =>
    rw [hop] at h
    exact ⟨t, exec, ht, hop, (Option.some.inj h).symm⟩
  | select | commit | halt =>
    rw [hop] at h
    cases h

theorem step_finish {s s' : State σ κ ε P} {i : ℕ} (h : M.step s (.finish i) = some s') :
    ∃ t exec snap, s.session i = some t ∧ M.op t.point = .write exec ∧ t.snapshot = some snap ∧
      (∀ k ∈ (exec snap (M.view s.committed t)).locks, s.lockedFor i k = false) ∧
      s' = s.put i (some (t.finish (exec snap (M.view s.committed t)))) := by
  obtain ⟨t, ht, h⟩ := Option.bind_eq_some_iff.mp h
  cases hop : M.op t.point with
  | write exec =>
    rw [hop] at h
    cases hsnap : t.snapshot with
    | none =>
      rw [hsnap] at h
      cases h
    | some snap =>
      rw [hsnap] at h
      simp only at h
      split at h
      · cases h
      · rename_i hfree
        rw [List.any_eq_true] at hfree
        push Not at hfree
        refine ⟨t, exec, snap, ht, hop, hsnap, fun k hk => ?_, (Option.some.inj h).symm⟩
        exact Bool.eq_false_iff.mpr (hfree k hk)
  | select | commit | halt =>
    rw [hop] at h
    cases h

theorem commit_eq {s : State σ κ ε P} {i : ℕ} {t : Session σ κ ε P} {next : P}
    (ht : s.session i = some t) (hop : M.op t.point = .commit next) :
    M.step s (.commit i) =
      some { s.put i (some (.fresh next)) with committed := M.view s.committed t } := by
  refine Option.bind_eq_some_iff.mpr ⟨t, ht, ?_⟩
  rw [hop]

theorem step_commit {s s' : State σ κ ε P} {i : ℕ} (h : M.step s (.commit i) = some s') :
    ∃ t next, s.session i = some t ∧ M.op t.point = .commit next ∧
      s' = { s.put i (some (.fresh next)) with committed := M.view s.committed t } := by
  obtain ⟨t, ht, h⟩ := Option.bind_eq_some_iff.mp h
  cases hop : M.op t.point with
  | commit next =>
    rw [hop] at h
    exact ⟨t, next, ht, hop, (Option.some.inj h).symm⟩
  | select | write | halt =>
    rw [hop] at h
    cases h

/-- Only a commit changes the committed state. -/
theorem committed_step {s s' : State σ κ ε P} {a : Action ρ} (h : M.step s a = some s') :
    s'.committed = s.committed ∨ ∃ i t next, a = .commit i ∧ s.session i = some t ∧
      M.op t.point = .commit next ∧ s'.committed = M.view s.committed t := by
  cases a with
  | arrive r =>
    obtain rfl := Option.some.inj h
    exact .inl rfl
  | select i =>
    obtain ⟨t, next, -, -, rfl⟩ := step_select h
    exact .inl rfl
  | start i =>
    obtain ⟨t, exec, -, -, rfl⟩ := step_start h
    exact .inl rfl
  | finish i =>
    obtain ⟨t, exec, snap, -, -, -, -, rfl⟩ := step_finish h
    exact .inl rfl
  | commit i =>
    obtain ⟨t, next, ht, hop, rfl⟩ := step_commit h
    exact .inr ⟨i, t, next, rfl, ht, hop, rfl⟩
  | abort i =>
    obtain rfl := Option.some.inj h
    exact .inl rfl

end Machine

/-! ## The rely-guarantee rule -/

/-- No session disturbs another by its commit: `Allow c t u` where `t` commits and `u` is open. -/
def Undisturbed (Allow : σ → Session σ κ ε P → Session σ κ ε P → Prop) (s : State σ κ ε P) :
    Action ρ → Prop
  | .commit i => ∀ t, s.session i = some t → ∀ j u, j ≠ i → s.session j = some u →
      Allow s.committed t u
  | _ => True

/-- Facts `Base` of the committed state and `Local` of a session under it, which the session's own
steps keep, and which the allowed commits of others keep where no lock is shared. -/
structure Rule (M : Machine σ κ ε P ρ) (Base : σ → Prop) (Local : σ → Session σ κ ε P → Prop)
    (Allow : σ → Session σ κ ε P → Session σ κ ε P → Prop) : Prop where
  entry : ∀ c r, Base c → Local c (.fresh (M.entry r))
  select : ∀ c t next, Base c → Local c t → M.op t.point = .select next →
    Local c (t.goto (next (M.view c t)))
  start : ∀ c t exec, Base c → Local c t → M.op t.point = .write exec →
    Local c { t with snapshot := some (M.view c t) }
  finish : ∀ c t exec snap, Base c → Local c t → M.op t.point = .write exec →
    t.snapshot = some snap → Local c (t.finish (exec snap (M.view c t)))
  commit : ∀ c t next, Base c → Local c t → M.op t.point = .commit next →
    Base (M.view c t) ∧ Local (M.view c t) (.fresh next)
  stable : ∀ c t next u, Base c → Local c t → M.op t.point = .commit next → Local c u →
    t.held.Disjoint u.held → Allow c t u → Local (M.view c t) u

/-- The invariant of a rule. -/
structure Holds (Base : σ → Prop) (Local : σ → Session σ κ ε P → Prop) (s : State σ κ ε P) :
    Prop where
  base : Base s.committed
  exclusive : ∀ i j t u, i ≠ j → s.session i = some t → s.session j = some u →
    t.held.Disjoint u.held
  sessions : ∀ i t, s.session i = some t → Local s.committed t

namespace Holds

variable {Base : σ → Prop} {Local : σ → Session σ κ ε P → Prop} {s : State σ κ ε P}

theorem start {c : σ} (h : Base c) : Holds Base Local (State.start c : State σ κ ε P) where
  base := h
  exclusive := fun i _ _ _ _ ht _ => by simp at ht
  sessions := fun i t ht => by simp at ht

/-- A session goes on where it is. The locks it holds now were its own or were free. -/
theorem put {i : ℕ} {t : Option (Session σ κ ε P)} (h : Holds Base Local s)
    (hlocal : ∀ u, t = some u → Local s.committed u)
    (hlocks : ∀ u, t = some u → ∀ j v, j ≠ i → s.session j = some v → u.held.Disjoint v.held) :
    Holds Base Local (s.put i t) where
  base := h.base
  exclusive := by
    intro a b u v hab hu hv
    rcases State.session_put hu with ⟨rfl, htu⟩ | ⟨hia, hsu⟩
    · rcases State.session_put hv with ⟨rfl, -⟩ | ⟨hib, hsv⟩
      · exact absurd rfl hab
      · exact hlocks u htu b v (Ne.symm hib) hsv
    · rcases State.session_put hv with ⟨rfl, htv⟩ | ⟨-, hsv⟩
      · exact List.disjoint_symm (hlocks v htv a u (Ne.symm hia) hsu)
      · exact h.exclusive a b u v hab hsu hsv
  sessions := by
    intro j u hu
    rcases State.session_put hu with ⟨-, hu⟩ | ⟨-, hu⟩
    · exact hlocal u hu
    · exact h.sessions j u hu

theorem push {t : Session σ κ ε P} (h : Holds Base Local s) (hlocal : Local s.committed t)
    (hheld : t.held = []) : Holds Base Local { s with sessions := s.sessions ++ [some t] } where
  base := h.base
  exclusive := by
    intro i j u v hij hu hv
    rcases State.session_push hu with rfl | hu
    · rw [hheld]
      exact List.disjoint_nil_left _
    · rcases State.session_push hv with rfl | hv
      · rw [hheld]
        exact List.disjoint_nil_right _
      · exact h.exclusive i j u v hij hu hv
  sessions := by
    intro i u hu
    rcases State.session_push hu with rfl | hu
    · exact hlocal
    · exact h.sessions i u hu

/-- A session goes on without new locks. -/
theorem put_kept {i : ℕ} {t u : Session σ κ ε P} (h : Holds Base Local s)
    (ht : s.session i = some t) (hlocal : Local s.committed u) (hheld : u.held ⊆ t.held) :
    Holds Base Local (s.put i (some u)) := by
  refine h.put (fun v hv => ?_) (fun v hv j w hj hw => ?_)
  · rw [← Option.some.inj hv]
    exact hlocal
  · rw [← Option.some.inj hv]
    intro k hk
    exact h.exclusive i j t w (Ne.symm hj) ht hw (hheld hk)

/-- A session goes on with locks that were free. -/
theorem put_free [DecidableEq κ] {i : ℕ} {t : Session σ κ ε P} {out : Outcome κ ε P}
    (h : Holds Base Local s) (ht : s.session i = some t)
    (hfree : ∀ k ∈ out.locks, s.lockedFor i k = false) (hlocal : Local s.committed (t.finish out)) :
    Holds Base Local (s.put i (some (t.finish out))) := by
  refine h.put (fun v hv => ?_) (fun v hv j w hj hw => ?_)
  · rw [← Option.some.inj hv]
    exact hlocal
  · rw [← Option.some.inj hv]
    refine List.disjoint_append_left.mpr ⟨h.exclusive i j t w (Ne.symm hj) ht hw, ?_⟩
    intro k hk hkw
    exact State.not_held_of_lockedFor (hfree k hk) hj hw hkw

/-- A session commits, and what the others know stands. -/
theorem commit {i : ℕ} {t : Session σ κ ε P} {c : σ} {p : P} (h : Holds Base Local s)
    (ht : s.session i = some t) (hbase : Base c) (hlocal : Local c (.fresh p))
    (hothers : ∀ j u, j ≠ i → s.session j = some u → Local s.committed u →
      t.held.Disjoint u.held → Local c u) :
    Holds Base Local { s.put i (some (.fresh p)) with committed := c } := by
  have hput : Holds (fun _ => True) (fun _ _ => True) (s.put i (some (.fresh p))) := by
    have hs : Holds (fun _ => True) (fun _ _ => True) s :=
      ⟨trivial, h.exclusive, fun _ _ _ => trivial⟩
    refine hs.put_kept ht trivial ?_
    exact List.nil_subset _
  refine ⟨hbase, hput.exclusive, fun j u hu => ?_⟩
  rcases State.session_put hu with ⟨-, hu⟩ | ⟨hij, hu⟩
  · rw [← Option.some.inj hu]
    exact hlocal
  · exact hothers j u (Ne.symm hij) hu (h.sessions j u hu) (h.exclusive i j t u hij ht hu)

theorem abort (h : Holds Base Local s) (i : ℕ) : Holds Base Local (s.put i none) :=
  h.put (fun _ hu => by cases hu) (fun _ hu => by cases hu)

end Holds

namespace Rule

variable {M : Machine σ κ ε P ρ} {Base : σ → Prop} {Local : σ → Session σ κ ε P → Prop}
  {Allow : σ → Session σ κ ε P → Session σ κ ε P → Prop} [DecidableEq κ] {s s' : State σ κ ε P}
  {a : Action ρ}

/-- One step keeps the invariant. -/
theorem step_holds (R : Rule M Base Local Allow) (h : Holds Base Local s)
    (hstep : M.step s a = some s') (hallow : Undisturbed Allow s a) : Holds Base Local s' := by
  cases a with
  | arrive r =>
    obtain rfl := Option.some.inj hstep
    exact h.push (R.entry _ r h.base) rfl
  | select i =>
    obtain ⟨t, next, ht, hop, rfl⟩ := Machine.step_select hstep
    exact h.put_kept ht (R.select _ t next h.base (h.sessions i t ht) hop) (fun k hk => hk)
  | start i =>
    obtain ⟨t, exec, ht, hop, rfl⟩ := Machine.step_start hstep
    exact h.put_kept ht (R.start _ t exec h.base (h.sessions i t ht) hop) (fun k hk => hk)
  | finish i =>
    obtain ⟨t, exec, snap, ht, hop, hsnap, hfree, rfl⟩ := Machine.step_finish hstep
    exact h.put_free ht hfree (R.finish _ t exec snap h.base (h.sessions i t ht) hop hsnap)
  | commit i =>
    obtain ⟨t, next, ht, hop, rfl⟩ := Machine.step_commit hstep
    obtain ⟨hbase, hfresh⟩ := R.commit _ t next h.base (h.sessions i t ht) hop
    refine h.commit ht hbase hfresh fun j u hj hu hlocal hheld => ?_
    exact R.stable _ t next u h.base (h.sessions i t ht) hop hlocal hheld (hallow t ht j u hj hu)
  | abort i =>
    obtain rfl := Option.some.inj hstep
    exact h.abort i

theorem run_holds (R : Rule M Base Local Allow) {as : List (Action ρ)}
    (h : Run (restrict (Undisturbed Allow) (ofPartial M.step)) s as s') (hs : Holds Base Local s) :
    Holds Base Local s' :=
  h.invariant (fun _ _ _ hI hst => R.step_holds hI hst.2 hst.1) hs

/-- What every commit respects, every undisturbed run respects. -/
theorem run_preserves (R : Rule M Base Local Allow) {Q : σ → σ → Prop} (hrefl : ∀ c, Q c c)
    (htrans : ∀ c d e, Q c d → Q d e → Q c e)
    (hcommit : ∀ c t next, Base c → Local c t → M.op t.point = .commit next → Q c (M.view c t))
    {as : List (Action ρ)} (h : Run (restrict (Undisturbed Allow) (ofPartial M.step)) s as s')
    (hs : Holds Base Local s) : Q s.committed s'.committed := by
  refine Run.preserves (R := fun s s' => Q s.committed s'.committed) (I := Holds Base Local)
    (fun s => hrefl _) (fun _ _ _ => htrans _ _ _)
    (fun _ _ _ hI hst => R.step_holds hI hst.2 hst.1) ?_ h hs
  intro s a s' hI hst
  rcases Machine.committed_step hst.2 with heq | ⟨i, t, next, -, ht, hop, heq⟩
  · rw [heq]
    exact hrefl _
  · rw [heq]
    exact hcommit _ t next hI.base (hI.sessions i t ht) hop

end Rule

end Kryptolog.ReadCommitted
