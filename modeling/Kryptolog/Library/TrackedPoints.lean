import Kryptolog.Library.ReadCommitted

/-! # Points that say what their transaction did

In many programs the point of a transaction says which changes it has made and which rows it
holds. `Tracking` says so, and `PointRule` is the rely-guarantee rule for such a machine: its
facts are about the committed state and a point, no session is mentioned, and the changes of a
commit are those of its point. Nothing here mentions this repository.
-/

namespace Kryptolog.ReadCommitted
set_option autoImplicit false

open Runs

variable {σ κ ε P ρ : Type}

/-- The committed state after some changes. -/
def Machine.after (M : Machine σ κ ε P ρ) (c : σ) (es : List ε) : σ :=
  es.foldl (fun c e => M.apply e c) c

/-- The changes and the locks that a point stands for, up to a point where nothing follows. -/
structure Tracking (M : Machine σ κ ε P ρ) (log : P → List ε) (locks : P → List κ) : Prop where
  entry : ∀ r, log (M.entry r) = [] ∧ locks (M.entry r) = []
  select : ∀ p next c, M.op p = .select next →
    M.op (next c) = .halt ∨ (log (next c) = log p ∧ locks (next c) ⊆ locks p)
  write : ∀ p exec snap cur, M.op p = .write exec →
    M.op (exec snap cur).next = .halt ∨ (log (exec snap cur).next = log p ++ (exec snap cur).effects ∧
      locks (exec snap cur).next ⊆ locks p ++ (exec snap cur).locks)
  commit : ∀ p next, M.op p = .commit next → log next = [] ∧ locks next = []

/-- A session is where its point says. -/
def Tracked (M : Machine σ κ ε P ρ) (log : P → List ε) (locks : P → List κ)
    (t : Session σ κ ε P) : Prop :=
  M.op t.point = .halt ∨ (t.log = log t.point ∧ locks t.point ⊆ t.held)

/-- The commits are taken where `Ready` holds of the committed state and the point. -/
def Prepared (Ready : σ → P → Prop) (s : State σ κ ε P) : Action ρ → Prop
  | .commit i => ∀ t, s.session i = some t → Ready s.committed t.point
  | _ => True

/-- A run without commits is prepared. -/
theorem prepared_of_no_commit {step : State σ κ ε P → Action ρ → State σ κ ε P → Prop}
    {Ready : σ → P → Prop} {s s' : State σ κ ε P} {as : List (Action ρ)} (h : Run step s as s')
    (has : ∀ a ∈ as, a.isCommit = false) : Run (restrict (Prepared Ready) step) s as s' := by
  refine h.restrict_mem.mono fun s a s' hst => ⟨?_, hst.2⟩
  cases a with
  | commit i => cases has _ hst.1
  | arrive | select | start | finish | abort => trivial

/-- Where `Ready` always holds, every run is prepared. -/
theorem prepared_of_ready {step : State σ κ ε P → Action ρ → State σ κ ε P → Prop}
    {Ready : σ → P → Prop} (hready : ∀ c p, Ready c p) {s s' : State σ κ ε P}
    {as : List (Action ρ)} (h : Run step s as s') : Run (restrict (Prepared Ready) step) s as s' := by
  refine h.mono fun s a s' hst => ⟨?_, hst⟩
  cases a with
  | commit i => exact fun t _ => hready _ _
  | arrive | select | start | finish | abort => trivial

/-- Facts `Base` of the committed state and `Facts` of a point under it. -/
structure PointRule (M : Machine σ κ ε P ρ) (log : P → List ε) (locks : P → List κ)
    (Base : σ → Prop) (Facts Ready : σ → P → Prop) : Prop where
  entry : ∀ c r, Base c → Facts c (M.entry r)
  select : ∀ c p next, Base c → Facts c p → M.op p = .select next →
    Facts c (next (M.after c (log p)))
  write : ∀ c p exec snap, Base c → Facts c p → M.op p = .write exec →
    Facts c (exec snap (M.after c (log p))).next
  commit : ∀ c p next, Base c → Facts c p → M.op p = .commit next → Ready c p →
    Base (M.after c (log p)) ∧ Facts (M.after c (log p)) next
  stable : ∀ c p next q, Base c → Facts c p → M.op p = .commit next → Ready c p → Facts c q →
    (locks p).Disjoint (locks q) → Facts (M.after c (log p)) q

section rule

variable {M : Machine σ κ ε P ρ} {log : P → List ε} {locks : P → List κ} {Base : σ → Prop}
  {Facts Ready : σ → P → Prop} {s s' : State σ κ ε P} {a : Action ρ} {t u : Session σ κ ε P}

/-- What is ready under the facts of the committed state may be asked for instead. -/
theorem PointRule.ready {Ready' : σ → P → Prop} (R : PointRule M log locks Base Facts Ready)
    (h : ∀ c p, Base c → Ready' c p → Ready c p) : PointRule M log locks Base Facts Ready' where
  entry := R.entry
  select := R.select
  write := R.write
  commit c p next hbase hfacts hop hready := R.commit c p next hbase hfacts hop (h c p hbase hready)
  stable c p next q hbase hfacts hop hready := R.stable c p next q hbase hfacts hop (h c p hbase hready)

theorem Tracked.view (h : Tracked M log locks t) (hop : M.op t.point ≠ .halt) (c : σ) :
    M.view c t = M.after c (log t.point) := by
  obtain hhalt | ⟨hlog, -⟩ := h
  · exact absurd hhalt hop
  · rw [Machine.view, Machine.after, hlog]

theorem Tracked.disjoint (h : Tracked M log locks t) (hop : M.op t.point ≠ .halt)
    (h' : Tracked M log locks u) (hop' : M.op u.point ≠ .halt) (hheld : t.held.Disjoint u.held) :
    (locks t.point).Disjoint (locks u.point) := by
  obtain hhalt | ⟨-, hlocks⟩ := h
  · exact absurd hhalt hop
  · obtain hhalt | ⟨-, hlocks'⟩ := h'
    · exact absurd hhalt hop'
    · exact fun k hk hk' => hheld (hlocks hk) (hlocks' hk')

theorem ne_halt_of_select {p : P} {next : σ → P} (hop : M.op p = .select next) : M.op p ≠ .halt := by
  rw [hop]
  exact fun h => by cases h

theorem ne_halt_of_write {p : P} {exec : σ → σ → Outcome κ ε P} (hop : M.op p = .write exec) : M.op p ≠ .halt := by
  rw [hop]
  exact fun h => by cases h

theorem ne_halt_of_commit {p next : P} (hop : M.op p = .commit next) : M.op p ≠ .halt := by
  rw [hop]
  exact fun h => by cases h

theorem Tracking.fresh (T : Tracking M log locks) (r : ρ) : Tracked M log locks (.fresh (M.entry r)) := by
  refine .inr ⟨(T.entry r).1.symm, ?_⟩
  rw [Session.fresh, (T.entry r).2]
  exact List.nil_subset _

theorem Tracking.committed (T : Tracking M log locks) {p next : P} (hop : M.op p = .commit next) :
    Tracked M log locks (.fresh next) := by
  refine .inr ⟨(T.commit p next hop).1.symm, ?_⟩
  rw [Session.fresh, (T.commit p next hop).2]
  exact List.nil_subset _

theorem Tracked.goto (h : Tracked M log locks t) (T : Tracking M log locks) {next : σ → P}
    (hop : M.op t.point = .select next) (c : σ) : Tracked M log locks (t.goto (next c)) := by
  rcases h with hhalt | ⟨hlog, hlocks⟩
  · exact absurd hhalt (ne_halt_of_select hop)
  · rcases T.select _ next c hop with hhalt | ⟨hlog', hlocks'⟩
    · exact .inl hhalt
    · exact .inr ⟨hlog.trans hlog'.symm, fun k hk => hlocks (hlocks' hk)⟩

theorem Tracked.finish (h : Tracked M log locks t) (T : Tracking M log locks) {exec : σ → σ → Outcome κ ε P}
    (hop : M.op t.point = .write exec) (snap cur : σ) : Tracked M log locks (t.finish (exec snap cur)) := by
  rcases h with hhalt | ⟨hlog, hlocks⟩
  · exact absurd hhalt (ne_halt_of_write hop)
  · rcases T.write _ exec snap cur hop with hhalt | ⟨hlog', hlocks'⟩
    · exact .inl hhalt
    · refine .inr ⟨?_, fun k hk => ?_⟩
      · change t.log ++ _ = _
        rw [hlog, ← hlog']
        rfl
      · rcases List.mem_append.mp (hlocks' hk) with hk | hk
        · exact List.mem_append_left _ (hlocks hk)
        · exact List.mem_append_right _ hk

/-- The sessions are tracked, and the facts hold of the points where something follows. -/
def PointLocal (M : Machine σ κ ε P ρ) (log : P → List ε) (locks : P → List κ)
    (Facts : σ → P → Prop) (c : σ) (t : Session σ κ ε P) : Prop :=
  Tracked M log locks t ∧ (M.op t.point ≠ .halt → Facts c t.point)

variable [DecidableEq κ]

/-- One step keeps what the rule is about. -/
theorem PointRule.step_holds (T : Tracking M log locks)
    (R : PointRule M log locks Base Facts Ready)
    (h : Holds Base (PointLocal M log locks Facts) s) (hstep : M.step s a = some s')
    (hready : Prepared Ready s a) : Holds Base (PointLocal M log locks Facts) s' := by
  cases a with
  | arrive r =>
    obtain rfl := Option.some.inj hstep
    have hentry : PointLocal M log locks Facts s.committed (.fresh (M.entry r)) :=
      ⟨T.fresh r, fun _ => R.entry _ r h.base⟩
    exact h.push hentry rfl
  | select i =>
    obtain ⟨t, next, ht, hop, rfl⟩ := Machine.step_select hstep
    obtain ⟨htracked, hfacts⟩ := h.sessions i t ht
    have hne := ne_halt_of_select hop
    refine h.put_kept ht ⟨htracked.goto T hop _, fun _ => ?_⟩ (fun k hk => hk)
    rw [htracked.view hne]
    exact R.select _ _ next h.base (hfacts hne) hop
  | start i =>
    obtain ⟨t, exec, ht, hop, rfl⟩ := Machine.step_start hstep
    exact h.put_kept ht (h.sessions i t ht) (fun k hk => hk)
  | finish i =>
    obtain ⟨t, exec, snap, ht, hop, -, hfree, rfl⟩ := Machine.step_finish hstep
    obtain ⟨htracked, hfacts⟩ := h.sessions i t ht
    have hne := ne_halt_of_write hop
    refine h.put_free ht hfree ⟨htracked.finish T hop snap _, fun _ => ?_⟩
    rw [htracked.view hne]
    exact R.write _ _ exec snap h.base (hfacts hne) hop
  | commit i =>
    obtain ⟨t, next, ht, hop, rfl⟩ := Machine.step_commit hstep
    obtain ⟨htracked, hfacts⟩ := h.sessions i t ht
    have hne := ne_halt_of_commit hop
    have hcommit := R.commit _ _ next h.base (hfacts hne) hop (hready t ht)
    rw [htracked.view hne]
    refine h.commit ht hcommit.1 ⟨T.committed hop, fun _ => hcommit.2⟩ ?_
    rintro j u - - ⟨hu, hufacts⟩ hheld
    refine ⟨hu, fun hune => ?_⟩
    exact R.stable _ _ next _ h.base (hfacts hne) hop (hready t ht) (hufacts hune)
      (htracked.disjoint hne hu hune hheld)
  | abort i =>
    obtain rfl := Option.some.inj hstep
    exact h.abort i

theorem PointRule.run_holds (T : Tracking M log locks)
    (R : PointRule M log locks Base Facts Ready) {as : List (Action ρ)}
    (h : Run (restrict (Prepared Ready) (ofPartial M.step)) s as s')
    (hs : Holds Base (PointLocal M log locks Facts) s) :
    Holds Base (PointLocal M log locks Facts) s' :=
  h.invariant (fun _ _ _ hI hst => R.step_holds T hI hst.2 hst.1) hs

/-- What every prepared commit respects, every run of prepared commits respects. -/
theorem PointRule.run_preserves (T : Tracking M log locks)
    (R : PointRule M log locks Base Facts Ready) {Q : σ → σ → Prop} (hrefl : ∀ c, Q c c)
    (htrans : ∀ c d e, Q c d → Q d e → Q c e)
    (hcommit : ∀ c p next, Base c → Facts c p → M.op p = .commit next → Ready c p →
      Q c (M.after c (log p)))
    {as : List (Action ρ)} (h : Run (restrict (Prepared Ready) (ofPartial M.step)) s as s')
    (hs : Holds Base (PointLocal M log locks Facts) s) : Q s.committed s'.committed := by
  refine Run.preserves (R := fun s s' => Q s.committed s'.committed)
    (I := Holds Base (PointLocal M log locks Facts)) (fun s => hrefl _) (fun _ _ _ => htrans _ _ _)
    (fun _ _ _ hI hst => R.step_holds T hI hst.2 hst.1) ?_ h hs
  intro s a s' hI hst
  rcases Machine.committed_step hst.2 with heq | ⟨i, t, next, rfl, ht, hop, heq⟩
  · rw [heq]
    exact hrefl _
  · obtain ⟨htracked, hfacts⟩ := hI.sessions i t ht
    have hne := ne_halt_of_commit hop
    rw [heq, htracked.view hne]
    exact hcommit _ _ next hI.base (hfacts hne) hop (hst.1 t ht)

/-- What a step commits: nothing, or the changes of a point that knows its facts. -/
theorem PointRule.commit_effect (h : Holds Base (PointLocal M log locks Facts) s)
    (hstep : M.step s a = some s') :
    (a.isCommit = false ∧ s'.committed = s.committed) ∨ ∃ i t next, a = .commit i ∧
      s.session i = some t ∧ M.op t.point = .commit next ∧ Facts s.committed t.point ∧
      s'.committed = M.after s.committed (log t.point) := by
  cases a with
  | commit i =>
    obtain ⟨t, next, ht, hop, rfl⟩ := Machine.step_commit hstep
    obtain ⟨htracked, hfacts⟩ := h.sessions i t ht
    have hne := ne_halt_of_commit hop
    exact .inr ⟨i, t, next, rfl, ht, hop, hfacts hne, htracked.view hne _⟩
  | arrive | select | start | finish | abort =>
    rcases Machine.committed_step hstep with heq | ⟨i, t, next, ha, -⟩
    · exact .inl ⟨rfl, heq⟩
    · cases ha

end rule

/-! ## What a writing statement has seen -/

/-- Facts `Base` of the committed state, `Facts` of a point under it, and `Seen` of the snapshot of a writing
statement that has started there. -/
structure SnapshotRule (M : Machine σ κ ε P ρ) (log : P → List ε) (locks : P → List κ)
    (Base : σ → Prop) (Facts : σ → P → Prop) (Seen : σ → P → σ → Prop) : Prop where
  entry : ∀ c r, Base c → Facts c (M.entry r)
  select : ∀ c p next, Base c → Facts c p → M.op p = .select next →
    Facts c (next (M.after c (log p)))
  start : ∀ c p exec, Base c → Facts c p → M.op p = .write exec → Seen c p (M.after c (log p))
  write : ∀ c p exec snap, Base c → Facts c p → M.op p = .write exec → Seen c p snap →
    Facts c (exec snap (M.after c (log p))).next
  commit : ∀ c p next, Base c → Facts c p → M.op p = .commit next →
    Base (M.after c (log p)) ∧ Facts (M.after c (log p)) next
  stable : ∀ c p next q, Base c → Facts c p → M.op p = .commit next → Facts c q →
    (locks p).Disjoint (locks q) → Facts (M.after c (log p)) q ∧
      ∀ snap, Seen c q snap → Seen (M.after c (log p)) q snap

section snapshots

variable {M : Machine σ κ ε P ρ} {log : P → List ε} {locks : P → List κ} {Base : σ → Prop}
  {Facts : σ → P → Prop} {Seen : σ → P → σ → Prop}

/-- The facts of a point and of the snapshot taken there. -/
def SnapshotLocal (M : Machine σ κ ε P ρ) (log : P → List ε) (locks : P → List κ) (Facts : σ → P → Prop)
    (Seen : σ → P → σ → Prop) (c : σ) (t : Session σ κ ε P) : Prop :=
  PointLocal M log locks Facts c t ∧ ∀ snap, t.snapshot = some snap → M.op t.point ≠ .halt → Seen c t.point snap

/-- The sessions of such a machine keep their facts of the committed state. -/
theorem SnapshotRule.rule (T : Tracking M log locks) (R : SnapshotRule M log locks Base Facts Seen) :
    Rule M Base (SnapshotLocal M log locks Facts Seen) fun _ _ _ => True where
  entry c r hbase := ⟨⟨T.fresh r, fun _ => R.entry c r hbase⟩, fun snap hsnap => by cases hsnap⟩
  select := by
    rintro c t next hbase ⟨⟨htracked, hfacts⟩, -⟩ hop
    have hne := ne_halt_of_select hop
    refine ⟨⟨htracked.goto T hop _, fun _ => ?_⟩, fun snap hsnap => by cases hsnap⟩
    rw [htracked.view hne]
    exact R.select c _ next hbase (hfacts hne) hop
  start := by
    rintro c t exec hbase ⟨⟨htracked, hfacts⟩, -⟩ hop
    have hne := ne_halt_of_write hop
    refine ⟨⟨htracked, hfacts⟩, fun snap hsnap _ => ?_⟩
    rw [← Option.some.inj hsnap, htracked.view hne]
    exact R.start c _ exec hbase (hfacts hne) hop
  finish := by
    rintro c t exec snap hbase ⟨⟨htracked, hfacts⟩, hseen⟩ hop hsnap
    have hne := ne_halt_of_write hop
    refine ⟨⟨htracked.finish T hop snap _, fun _ => ?_⟩, fun snap hsnap => by cases hsnap⟩
    rw [htracked.view hne]
    exact R.write c _ exec snap hbase (hfacts hne) hop (hseen snap hsnap hne)
  commit := by
    rintro c t next hbase ⟨⟨htracked, hfacts⟩, -⟩ hop
    have hne := ne_halt_of_commit hop
    have hcommit := R.commit c _ next hbase (hfacts hne) hop
    rw [htracked.view hne]
    exact ⟨hcommit.1, ⟨T.committed hop, fun _ => hcommit.2⟩, fun snap hsnap => by cases hsnap⟩
  stable := by
    rintro c t next u hbase ⟨⟨htracked, hfacts⟩, -⟩ hop ⟨⟨hu, hufacts⟩, huseen⟩ hheld -
    have hne := ne_halt_of_commit hop
    rw [htracked.view hne]
    have hstable : M.op u.point ≠ .halt → Facts (M.after c (log t.point)) u.point ∧
        ∀ snap, Seen c u.point snap → Seen (M.after c (log t.point)) u.point snap := fun hune =>
      R.stable c _ next _ hbase (hfacts hne) hop (hufacts hune) (htracked.disjoint hne hu hune hheld)
    exact ⟨⟨hu, fun hune => (hstable hune).1⟩, fun snap hsnap hune => (hstable hune).2 snap (huseen snap hsnap hune)⟩

variable [DecidableEq κ] {s s' : State σ κ ε P} {a : Action ρ}

theorem SnapshotRule.run_holds (T : Tracking M log locks) (R : SnapshotRule M log locks Base Facts Seen)
    {as : List (Action ρ)} (h : Run (ofPartial M.step) s as s')
    (hs : Holds Base (SnapshotLocal M log locks Facts Seen) s) :
    Holds Base (SnapshotLocal M log locks Facts Seen) s' := by
  refine (R.rule T).run_holds (h.mono fun _ a _ hst => ⟨?_, hst⟩) hs
  cases a with
  | commit i => exact fun _ _ _ _ _ _ => trivial
  | arrive | select | start | finish | abort => trivial

/-- What a step commits: nothing, or the changes of a point that knows its facts. -/
theorem SnapshotRule.commit_effect (h : Holds Base (SnapshotLocal M log locks Facts Seen) s)
    (hstep : M.step s a = some s') :
    (a.isCommit = false ∧ s'.committed = s.committed) ∨ ∃ i t next, a = .commit i ∧
      s.session i = some t ∧ M.op t.point = .commit next ∧ Facts s.committed t.point ∧
      s'.committed = M.after s.committed (log t.point) := by
  cases a with
  | commit i =>
    obtain ⟨t, next, ht, hop, rfl⟩ := Machine.step_commit hstep
    obtain ⟨⟨htracked, hfacts⟩, -⟩ := h.sessions i t ht
    have hne := ne_halt_of_commit hop
    exact .inr ⟨i, t, next, rfl, ht, hop, hfacts hne, htracked.view hne _⟩
  | arrive | select | start | finish | abort =>
    rcases Machine.committed_step hstep with heq | ⟨i, t, next, ha, -⟩
    · exact .inl ⟨rfl, heq⟩
    · cases ha

end snapshots

/-! ## The request behind a point -/

/-- One point comes after another in a transaction, or as its next transaction. -/
inductive Machine.Follows (M : Machine σ κ ε P ρ) : P → P → Prop
  | select {p : P} {next : σ → P} (h : M.op p = .select next) (c : σ) : M.Follows p (next c)
  | write {p : P} {exec : σ → σ → Outcome κ ε P} (h : M.op p = .write exec) (snap cur : σ) :
    M.Follows p (exec snap cur).next
  | commit {p q : P} (h : M.op p = .commit q) : M.Follows p q

section origin

variable {M : Machine σ κ ε P ρ}

/-- Where points keep the request they serve, it is one that arrived. -/
theorem arrived_of_origin [DecidableEq κ] (origin : P → Option ρ)
    (hentry : ∀ r r', origin (M.entry r) = some r' → r' = r)
    (hnext : ∀ p q, M.Follows p q → ∀ r, origin q = some r → origin p = some r) {c : σ}
    {as : List (Action ρ)} {s : State σ κ ε P} (hrun : Run (ofPartial M.step) (.start c) as s)
    {i : ℕ} {t : Session σ κ ε P} {r : ρ} (ht : s.session i = some t)
    (hr : origin t.point = some r) : .arrive r ∈ as := by
  have hinv : ∀ j u, s.session j = some u → ∀ r, origin u.point = some r → .arrive r ∈ as := by
    refine Run.invariant (I := fun s => ∀ j u, s.session j = some u → ∀ r,
      origin u.point = some r → .arrive r ∈ as) ?_ hrun.restrict_mem ?_
    · rintro s a s' hI ⟨ha, hstep⟩
      have hput : ∀ {j : ℕ} {v w : Session σ κ ε P}, s.session j = some v →
          (∀ r, origin w.point = some r → origin v.point = some r) →
          ∀ k u, (s.put j (some w)).session k = some u → ∀ r, origin u.point = some r →
            .arrive r ∈ as := by
        intro j v w hv hvw k u hu r hr
        rcases State.session_put hu with ⟨-, hw⟩ | ⟨-, hu⟩
        · rw [← Option.some.inj hw] at hr
          exact hI j v hv r (hvw r hr)
        · exact hI k u hu r hr
      cases a with
      | arrive r₀ =>
        obtain rfl := Option.some.inj hstep
        intro j u hu r hr
        rcases State.session_push hu with rfl | hu
        · exact hentry r₀ r hr ▸ ha
        · exact hI j u hu r hr
      | select j =>
        obtain ⟨v, next, hv, hop, rfl⟩ := Machine.step_select hstep
        exact hput hv (hnext _ _ (.select hop _))
      | start j =>
        obtain ⟨v, exec, hv, hop, rfl⟩ := Machine.step_start hstep
        exact hput hv fun _ h => h
      | finish j =>
        obtain ⟨v, exec, snap, hv, hop, -, -, rfl⟩ := Machine.step_finish hstep
        exact hput hv (hnext _ _ (.write hop _ _))
      | commit j =>
        obtain ⟨v, next, hv, hop, rfl⟩ := Machine.step_commit hstep
        exact hput hv (hnext _ _ (.commit hop))
      | abort j =>
        obtain rfl := Option.some.inj hstep
        intro k u hu r hr
        rcases State.session_put hu with ⟨-, hw⟩ | ⟨-, hu⟩
        · cases hw
        · exact hI k u hu r hr
    · intro j u hu
      rw [State.session_start] at hu
      cases hu
  exact hinv i t ht r hr

end origin

end Kryptolog.ReadCommitted
