import Kryptolog.Client.FreshnessVerdicts

/-! # Messages that are assessed again

The record of a session only grows, and the place that a message took in it stays taken. A message that is
assessed again is judged against a record that knows it.
-/

namespace Kryptolog.Client
set_option autoImplicit false

open Script Fallible
open Server (Kind)

/-! ## The record only grows -/

section record

variable {d d' : Dated} {state : Delivered} {q : ℕ} {verdict : Option Freshness}

theorem record_lookup (h : (state.ids.lookup q).isSome = true) :
    (d.record state).ids.lookup q = state.ids.lookup q := by
  rw [Dated.record]
  split
  · rfl
  · simp only
    split
    · rfl
    · next hfree =>
      have hne : q ≠ d.seq := by
        rintro rfl
        exact hfree h
      rw [List.lookup_cons, beq_false_of_ne hne]

/-- What is not the latest message does not become the latest. -/
theorem isLatest_of_record (h : d.isLatest (d'.record state) = true) : d.isLatest state = true := by
  cases hreplayed : d'.isReplayed state with
  | true => rwa [Dated.record, if_pos hreplayed] at h
  | false =>
    cases hlatest : d'.isLatest state with
    | false =>
      have hmax : (d'.record state).maxAt = state.maxAt := by simp [Dated.record, hreplayed, hlatest]
      rwa [Dated.isLatest, hmax] at h
    | true =>
      have hmax : (d'.record state).maxAt = d'.deliveredAt := by simp [Dated.record, hreplayed, hlatest]
      rw [Dated.isLatest, hmax] at h
      rw [Dated.isLatest] at hlatest ⊢
      obtain ⟨t, hat, hle⟩ := (Option.any_eq_true _ _).mp h
      obtain ⟨t', hat', hle'⟩ := (Option.any_eq_true _ _).mp hlatest
      refine (Option.any_eq_true _ _).mpr ⟨t, hat, ?_⟩
      have htimes : t' ≤ t := by simpa [hat'] using hle
      cases hstate : state.maxAt with
      | none => rfl
      | some t₀ =>
        have ht₀ : t₀ ≤ t' := by simpa [hstate] using hle'
        simpa using ht₀.trans htimes

theorem maxSeq_record (h : state.maxSeq.any (q ≤ ·) = true) : (d.record state).maxSeq.any (q ≤ ·) = true := by
  rw [Dated.record]
  split
  · exact h
  · simp only
    split
    · next hhigher =>
      obtain ⟨-, hall⟩ := Bool.and_eq_true_iff.mp hhigher
      cases hmax : state.maxSeq with
      | none => simp [hmax] at h
      | some q₀ =>
        simp only [hmax, Option.any_some, Option.all_some, decide_eq_true_eq] at h hall ⊢
        exact h.trans (le_of_lt hall)
    · exact h

/-! ### Messages the record knows -/

/-- The position of the message is taken, and where the message is the latest, no later position is. -/
structure Assessed (d : Dated) (state : Delivered) : Prop where
  taken : (state.ids.lookup d.seq).isSome = true
  passed : d.isReplayed state = false → d.isLatest state = true → state.maxSeq.any (d.seq ≤ ·) = true

/-- What a message is judged to be once the record knows it. -/
def Dated.judgeAgain (d : Dated) (replayed : Bool) (verdict : Option Freshness) : Option Freshness :=
  if replayed then some .replayed else if d.isSkewed then some .skew else verdict

theorem Assessed.isReplayed_record (h : Assessed d state) :
    d.isReplayed (d'.record state) = d.isReplayed state := by
  rw [Dated.isReplayed, record_lookup h.taken, Dated.isReplayed]

theorem Assessed.record (h : Assessed d state) (d' : Dated) : Assessed d (d'.record state) where
  taken := by
    rw [record_lookup h.taken]
    exact h.taken
  passed := by
    intro hreplayed hlatest
    rw [h.isReplayed_record] at hreplayed
    exact maxSeq_record (h.passed hreplayed (isLatest_of_record hlatest))

theorem isReplayed_record_self : d.isReplayed (d.record state) = d.isReplayed state := by
  cases hreplayed : d.isReplayed state with
  | true => rw [Dated.record, if_pos hreplayed, hreplayed]
  | false =>
    cases htaken : state.ids.lookup d.seq with
    | some id =>
      rw [Dated.isReplayed, record_lookup (by rw [htaken]; rfl)]
      exact hreplayed
    | none => simp [Dated.record, htaken, Dated.isReplayed]

theorem assessed_record_self : Assessed d (d.record state) where
  taken := by
    cases htaken : state.ids.lookup d.seq with
    | some id =>
      rw [record_lookup (by rw [htaken]; rfl), htaken]
      rfl
    | none => simp [Dated.record, Dated.isReplayed, htaken]
  passed := by
    intro hreplayed hlatest
    rw [isReplayed_record_self] at hreplayed
    have hbefore : d.isLatest state = true := isLatest_of_record hlatest
    simp only [Dated.record, hreplayed, hbefore, Bool.true_and, Bool.false_eq_true, if_false]
    cases hmax : state.maxSeq with
    | none => simp
    | some q =>
      by_cases hlt : q < d.seq
      · simp [hlt]
      · simp [hlt, Nat.le_of_not_lt hlt]

/-- A position the record knows is neither new nor ahead. -/
theorem Assessed.judge (h : Assessed d state) :
    d.judge state verdict = d.judgeAgain (d.isReplayed state) verdict := by
  cases hreplayed : d.isReplayed state with
  | true => simp [Dated.judge, Dated.judgeAgain, hreplayed]
  | false =>
    obtain ⟨id, hid⟩ := Option.isSome_iff_exists.mp h.taken
    have hreordered : d.isReordered state = false := by simp [Dated.isReordered, hid]
    have hgap : d.isGap state = false := by
      rw [Dated.isGap]
      cases hlatest : d.isLatest state with
      | false => rfl
      | true =>
        have hpassed := h.passed hreplayed hlatest
        cases hmax : state.maxSeq with
        | none => rfl
        | some q =>
          have hle : d.seq ≤ q := by simpa [hmax] using hpassed
          have : ¬ q + 1 < d.seq := by omega
          simp [this]
    simp [Dated.judge, Dated.judgeAgain, hreplayed, hreordered, hgap]

/-- The verdicts that are about the message and not about its place. -/
def Freshness.isLasting : Freshness → Bool
  | .replayed | .skew => true
  | .reordered | .gap => false

theorem judgeAgain_none :
    d.judgeAgain (d.isReplayed state) none = (d.judge state none).filter Freshness.isLasting := by
  rw [Dated.judge, Dated.judgeAgain]
  cases d.isReplayed state <;> cases d.isSkewed <;> cases d.isReordered state <;> cases d.isGap state <;> rfl

theorem judgeAgain_judge : d.judgeAgain (d.isReplayed state) (d.judge state none) = d.judge state none := by
  rw [Dated.judge, Dated.judgeAgain]
  cases d.isReplayed state <;> cases d.isSkewed <;> cases d.isReordered state <;> cases d.isGap state <;> rfl

theorem judgeAgain_idem (r : Bool) : d.judgeAgain r (d.judgeAgain r verdict) = d.judgeAgain r verdict := by
  cases r <;> cases hskewed : d.isSkewed <;> simp [Dated.judgeAgain, hskewed]

end record

/-! ## Batches -/

section batches

variable {es es' : List (Text × Dated)} {verdicts verdicts' : ℕ → Option Freshness} {seen : Seen} {key : Text}
  {d : Dated} {state : Delivered}

theorem Assessed.foldl (h : Assessed d state) (ds : List Dated) :
    Assessed d (ds.foldl (fun state d => d.record state) state) ∧
      d.isReplayed (ds.foldl (fun state d => d.record state) state) = d.isReplayed state := by
  induction ds generalizing state with
  | nil => exact ⟨h, rfl⟩
  | cons d' ds ih =>
    obtain ⟨hassessed, hreplayed⟩ := ih (h.record d')
    exact ⟨hassessed, hreplayed.trans h.isReplayed_record⟩

theorem assessAll_append : assessAll (es ++ es') verdicts seen =
    assessAll es' (assessAll es verdicts seen).1 (assessAll es verdicts seen).2 := by
  induction es generalizing verdicts seen with
  | nil => rfl
  | cons e es ih =>
    rw [List.cons_append, assessAll, assessAll]
    exact ih

/-- The record does not depend on the verdicts. -/
theorem assessAll_seen_congr : (assessAll es verdicts seen).2 = (assessAll es verdicts' seen).2 := by
  induction es generalizing verdicts verdicts' seen with
  | nil => rfl
  | cons e es ih =>
    rw [assessAll, assessAll]
    exact ih

/-- The record under a name after one more message. -/
theorem record_getD (e : Text × Dated) : ((fun k => if k = e.1 then some (e.2.record ((seen e.1).getD .empty))
    else seen k : Seen) key).getD .empty =
      if key = e.1 then e.2.record ((seen key).getD .empty) else (seen key).getD .empty := by
  by_cases hkey : key = e.1
  · simp [hkey]
  · simp [hkey]

theorem Assessed.next (h : Assessed d ((seen key).getD .empty)) (e : Text × Dated) :
    Assessed d (if key = e.1 then e.2.record ((seen key).getD .empty) else (seen key).getD .empty) ∧
      d.isReplayed (if key = e.1 then e.2.record ((seen key).getD .empty) else (seen key).getD .empty) =
        d.isReplayed ((seen key).getD .empty) := by
  split
  · exact ⟨h.record e.2, h.isReplayed_record⟩
  · exact ⟨h, rfl⟩

/-- A verdict that judging again would repeat stands to the end of the batch. -/
theorem assessAll_fixed {replayed : Bool} {verdict : Option Freshness} (h : Assessed d ((seen key).getD .empty))
    (hreplayed : d.isReplayed ((seen key).getD .empty) = replayed)
    (hids : ∀ e ∈ es, e.2.id = d.id → e = (key, d)) (hverdict : verdicts d.id = verdict)
    (hfixed : d.judgeAgain replayed verdict = verdict) : (assessAll es verdicts seen).1 d.id = verdict := by
  induction es generalizing verdicts seen with
  | nil => exact hverdict
  | cons e es ih =>
    obtain ⟨he, hes⟩ := List.forall_mem_cons.mp hids
    obtain ⟨hassessed, hsame⟩ := h.next e
    rw [← record_getD] at hassessed hsame
    refine ih hassessed (hsame.trans hreplayed) hes ?_
    split
    · next hid =>
      obtain rfl := he hid.symm
      rw [h.judge, hreplayed, hverdict, hfixed]
    · exact hverdict

theorem assessAll_again (h : Assessed d ((seen key).getD .empty)) (hids : ∀ e ∈ es, e.2.id = d.id → e = (key, d))
    (hmem : (key, d) ∈ es) :
    (assessAll es verdicts seen).1 d.id = d.judgeAgain (d.isReplayed ((seen key).getD .empty)) (verdicts d.id) := by
  induction es generalizing verdicts seen with
  | nil => cases hmem
  | cons e es ih =>
    obtain ⟨he, hes⟩ := List.forall_mem_cons.mp hids
    obtain ⟨hassessed, hsame⟩ := h.next e
    rw [← record_getD] at hassessed hsame
    by_cases hid : e.2.id = d.id
    · obtain rfl := he hid
      rw [assessAll]
      exact assessAll_fixed hassessed hsame hes ((if_pos rfl).trans h.judge) (judgeAgain_idem _)
    · have hrest : (key, d) ∈ es := by
        refine (List.mem_cons.mp hmem).resolve_left ?_
        rintro rfl
        exact hid rfl
      rw [assessAll, ih hassessed hes hrest, if_neg (Ne.symm hid), hsame]

/-- The first time, a message is judged by the record before it, and what follows changes nothing. -/
theorem assessAll_judged {pre post : List (Text × Dated)} (hpre : ∀ e ∈ pre, e.2.id ≠ d.id)
    (hpost : ∀ e ∈ post, e.2.id = d.id → e = (key, d)) (hnone : verdicts d.id = none) :
    (assessAll (pre ++ (key, d) :: post) verdicts seen).1 d.id =
      d.judge (((assessAll pre verdicts seen).2 key).getD .empty) none := by
  rw [assessAll_append]
  generalize hbefore : assessAll pre verdicts seen = before
  have hverdict : before.1 d.id = none := by
    rw [← hbefore, assessAll_other hpre]
    exact hnone
  have hnext : ((fun k => if k = key then some (d.record ((before.2 key).getD .empty)) else before.2 k : Seen)
      key).getD .empty = d.record ((before.2 key).getD .empty) := (record_getD (key, d)).trans (if_pos rfl)
  rw [assessAll]
  refine assessAll_fixed ?_ ?_ hpost ((if_pos rfl).trans (congrArg _ hverdict)) judgeAgain_judge
  · rw [hnext]
    exact assessed_record_self
  · rw [hnext]
    exact isReplayed_record_self

end batches

/-- Messages of one kind that are assessed together. -/
structure Batch where
  kind : Kind
  rows : List MessageRow

namespace Reader

variable (env : Reader)

/-- The batch is assessed with the record that the reader carries. -/
def assess (batch : Batch) (seen : Seen) : Option (ℕ → Option Freshness) × Seen :=
  env.assessFreshness batch.kind (batch.rows.map (env.prepare batch.kind)) (fun _ => none) seen

/-- The record after the batches. -/
def recordAfter (batches : List Batch) : Seen :=
  batches.foldl (fun seen batch => (env.assess batch seen).2) fun _ => none

/-- The verdict on a message of a batch that comes after other batches. -/
def verdictIn (before : List Batch) (batch : Batch) (id : ℕ) : Option (Option Freshness) :=
  (env.assess batch (env.recordAfter before)).1.map (· id)

end Reader

section reassessed

variable {env : Reader} {kind : Kind} {before batches : List Batch} {batch : Batch} {rows pre post : List MessageRow}
  {row : MessageRow} {s : SequenceId} {d : Dated} {key : Text} {id : ℕ}

theorem verdictIn_eq : env.verdictIn before batch id =
    some ((assessAll (env.entries batch.kind batch.rows) (fun _ => none) (env.recordAfter before)).1 id) := by
  rw [Reader.verdictIn, Reader.assess, assessFreshness_eq]
  rfl

theorem recordAfter_append : env.recordAfter (before ++ batches) =
    batches.foldl (fun seen batch => (env.assess batch seen).2) (env.recordAfter before) := List.foldl_append

theorem recordAfter_concat : env.recordAfter (before ++ [batch]) =
    (assessAll (env.entries batch.kind batch.rows) (fun _ => none) (env.recordAfter before)).2 := by
  rw [recordAfter_append, List.foldl_cons, List.foldl_nil, Reader.assess, assessFreshness_eq]

theorem entries_append : env.entries kind (pre ++ post) = env.entries kind pre ++ env.entries kind post :=
  List.filterMap_append

/-- It does not matter into which batches messages are split. -/
theorem recordAfter_parts (parts : List (List MessageRow)) : env.recordAfter (before ++ parts.map (Batch.mk kind)) =
    (assessAll (env.entries kind parts.flatten) (fun _ => none) (env.recordAfter before)).2 := by
  induction parts generalizing before with
  | nil => rw [List.map_nil, List.append_nil]; rfl
  | cons part parts ih =>
    rw [List.map_cons, List.append_cons, ih, recordAfter_concat, List.flatten_cons, entries_append, assessAll_append]
    exact assessAll_seen_congr

/-- What the record knows, it knows after more batches. -/
theorem Assessed.afterBatches (h : Assessed d ((env.recordAfter before key).getD .empty)) (batches : List Batch) :
    Assessed d ((env.recordAfter (before ++ batches) key).getD .empty) ∧
      d.isReplayed ((env.recordAfter (before ++ batches) key).getD .empty) =
        d.isReplayed ((env.recordAfter before key).getD .empty) := by
  induction batches generalizing before with
  | nil =>
    rw [List.append_nil]
    exact ⟨h, rfl⟩
  | cons batch batches ih =>
    obtain ⟨hnext, hsame⟩ := h.foldl (under key (env.entries batch.kind batch.rows))
    rw [← @assessAll_seen _ (fun _ => none), ← recordAfter_concat] at hnext hsame
    obtain ⟨hassessed, hreplayed⟩ := ih hnext
    rw [List.append_cons]
    exact ⟨hassessed, hreplayed.trans hsame⟩

/-- Where rows with the number of a row are read as it is, one entry has its number. -/
theorem entries_alike (halike : ∀ r ∈ rows, r.id = row.id → env.sequenceOf kind r = env.sequenceOf kind row)
    (hs : env.sequenceOf kind row = some (s, d)) : ∀ e ∈ env.entries kind rows, e.2.id = d.id → e = (s.key, d) := by
  intro e he hid
  obtain ⟨r, hr, s', hs', hkey⟩ := mem_entries he
  have hrow : r.id = row.id := by
    rw [← (sequenceOf_dated hs').1, hid, (sequenceOf_dated hs).1]
  rw [halike r hr hrow, hs] at hs'
  obtain ⟨rfl, rfl⟩ := Prod.mk.inj (Option.some.inj hs')
  exact Prod.ext hkey rfl

theorem entries_other (hother : ∀ r ∈ rows, r.id ≠ id) : ∀ e ∈ env.entries kind rows, e.2.id ≠ id := by
  intro e he
  obtain ⟨r, hr, s, hs, -⟩ := mem_entries he
  rw [(sequenceOf_dated hs).1]
  exact hother r hr

theorem entries_none (halike : ∀ r ∈ rows, r.id = row.id → env.sequenceOf kind r = env.sequenceOf kind row)
    (hs : env.sequenceOf kind row = none) : ∀ e ∈ env.entries kind rows, e.2.id ≠ row.id := by
  intro e he hid
  obtain ⟨r, hr, s, hs', -⟩ := mem_entries he
  rw [halike r hr ((sequenceOf_dated hs').1.symm.trans hid), hs] at hs'
  cases hs'

theorem entries_cons (pre : List MessageRow) (hs : env.sequenceOf kind row = some (s, d)) :
    env.entries kind (pre ++ row :: post) = env.entries kind pre ++ (s.key, d) :: env.entries kind post := by
  rw [entries_append, Reader.entries, Reader.entries, List.filterMap_cons, hs]
  rfl

end reassessed

/-- A message is judged by what came before it, however that was split into batches, and what comes after it
in its batch changes nothing. Assessed again, in any later batch, it is replayed or skewed as before, and what was
out of order or after a gap is not flagged. -/
theorem reassessed (env : Reader) (kind : Kind) (before between : List Batch) (pre post rows : List MessageRow)
    (row row' : MessageRow) (hpre : ∀ r ∈ pre, r.id ≠ row.id) (hrow' : row' ∈ rows) (hid : row'.id = row.id)
    (halike : ∀ r ∈ row :: post ++ rows, r.id = row.id → env.sequenceOf kind r = env.sequenceOf kind row) :
    ∃ verdict, env.verdictIn before ⟨kind, pre ++ row :: post⟩ row.id = some verdict ∧
      (∀ parts : List (List MessageRow), parts.flatten = pre →
        env.verdictIn (before ++ parts.map (Batch.mk kind)) ⟨kind, [row]⟩ row.id = some verdict) ∧
      env.verdictIn (before ++ ⟨kind, pre ++ row :: post⟩ :: between) ⟨kind, rows⟩ row.id =
        some (verdict.filter Freshness.isLasting) := by
  obtain ⟨hfirst, hagain⟩ := List.forall_mem_append.mp halike
  obtain ⟨-, hpost⟩ := List.forall_mem_cons.mp hfirst
  cases hs : env.sequenceOf kind row with
  | none =>
    refine ⟨none, ?_, fun parts _ => ?_, ?_⟩
    · rw [verdictIn_eq, assessAll_other]
      rw [entries_append]
      exact List.forall_mem_append.mpr ⟨entries_other hpre, entries_none hfirst hs⟩
    · rw [verdictIn_eq, assessAll_other]
      exact entries_none (fun r hr _ => by rw [List.mem_singleton.mp hr]) hs
    · rw [verdictIn_eq, assessAll_other (entries_none hagain hs)]
      rfl
  | some e =>
    obtain ⟨s, d⟩ := e
    have hdid : d.id = row.id := (sequenceOf_dated hs).1
    generalize hstate : ((assessAll (env.entries kind pre) (fun _ => none) (env.recordAfter before)).2 s.key).getD
      .empty = state
    refine ⟨d.judge state none, ?_, fun parts hparts => ?_, ?_⟩
    · rw [verdictIn_eq, ← hdid]
      simp only [entries_cons pre hs]
      rw [assessAll_judged (hdid ▸ entries_other hpre) (entries_alike hpost hs) rfl, hstate]
    · rw [verdictIn_eq, recordAfter_parts, hparts, ← hdid]
      have hentries : env.entries kind [row] = [] ++ (s.key, d) :: [] := entries_cons [] hs
      simp only [hentries]
      rw [assessAll_judged (by simp) (by simp) rfl, ← hstate]
      rfl
    · -- the record after the batch knows the message
      have hseen : ((env.recordAfter (before ++ [⟨kind, pre ++ row :: post⟩]) s.key).getD .empty) =
          (under s.key (env.entries kind post)).foldl (fun state d => d.record state) (d.record state) := by
        rw [recordAfter_concat]
        simp only [entries_cons pre hs]
        rw [assessAll_append, assessAll, assessAll_seen, ← hstate]
        simp
      have hassessed : Assessed d ((env.recordAfter (before ++ [⟨kind, pre ++ row :: post⟩]) s.key).getD .empty) := by
        rw [hseen]
        exact (assessed_record_self.foldl _).1
      have hreplayed : d.isReplayed ((env.recordAfter (before ++ [⟨kind, pre ++ row :: post⟩]) s.key).getD .empty) =
          d.isReplayed state := by
        rw [hseen, (assessed_record_self.foldl _).2, isReplayed_record_self]
      obtain ⟨hknown, hsame⟩ := hassessed.afterBatches between
      have hmem : (s.key, d) ∈ env.entries kind rows := by
        refine List.mem_filterMap.mpr ⟨row', hrow', ?_⟩
        rw [hagain row' hrow' hid, hs]
        rfl
      rw [List.append_cons, verdictIn_eq, ← hdid,
        assessAll_again hknown (entries_alike hagain hs) hmem, hsame, hreplayed, judgeAgain_none]

/-! ## A message that is missing -/

section sample

/-- The payload of a message at a position, with nothing else that differs. -/
def placedPayload (seq : ℕ) : Value :=
  .obj [(lit "v", .num (.ofNat 2)), (lit "sid", .str (lit "s")), (lit "gid", .str (lit "g")),
    (lit "ts", .num (.ofNat 0)), (lit "seq", .num (.ofNat seq)), (lit "keys", .obj [(lit "me", .str (lit "ka"))]),
    (lit "ct", .str (lit "ct")), (lit "sig", .str (lit "sig"))]

def placedReader : Reader :=
  { sharedReader with
    parseJson := fun d => match d with
      | .notJson "first" => some (placedPayload 0)
      | .notJson "third" => some (placedPayload 2)
      | _ => none }

def placedRow (id : ℕ) (content : String) : MessageRow := ⟨id, uniformAddress 'a', lit "g", .notJson content, some id⟩

/-- The first and the third message of a session. -/
def placedBatch : Batch := ⟨.group, [placedRow 0 "first", placedRow 1 "third"]⟩

theorem placed_alike : ∀ r ∈ placedRow 1 "third" :: [] ++ placedBatch.rows, r.id = 1 →
    placedReader.sequenceOf .group r = placedReader.sequenceOf .group (placedRow 1 "third") := by
  intro r hr hid
  have hrow : r = placedRow 1 "third" ∨ r = placedRow 0 "first" ∨ r = placedRow 1 "third" := by
    simpa [placedBatch] using hr
  rcases hrow with rfl | rfl | rfl
  · rfl
  · cases hid
  · rfl

theorem verdictIn_placed : placedReader.verdictIn [] placedBatch 1 = some (some .gap) := by decide +kernel

/-- When the conversation is opened again, nothing says that a message is missing. -/
theorem reassessed_sample : placedReader.verdictIn [placedBatch] placedBatch 1 = some none := by
  obtain ⟨verdict, hfirst, -, hagain⟩ := reassessed placedReader .group [] [] [placedRow 0 "first"] []
    placedBatch.rows (placedRow 1 "third") (placedRow 1 "third") (by decide)
      (List.mem_cons_of_mem _ List.mem_cons_self) rfl placed_alike
  obtain rfl : verdict = some .gap := Option.some.inj (hfirst.symm.trans verdictIn_placed)
  exact hagain

/-- The verdict of the first time is not always that of the second. -/
theorem not_reassessed_alike : ¬ ∀ (env : Reader) (kind : Kind) (before between : List Batch)
    (pre post rows : List MessageRow) (row row' : MessageRow), (∀ r ∈ pre, r.id ≠ row.id) → row' ∈ rows →
    row'.id = row.id →
    (∀ r ∈ row :: post ++ rows, r.id = row.id → env.sequenceOf kind r = env.sequenceOf kind row) →
      env.verdictIn (before ++ ⟨kind, pre ++ row :: post⟩ :: between) ⟨kind, rows⟩ row.id =
        env.verdictIn before ⟨kind, pre ++ row :: post⟩ row.id := by
  intro h
  have hsame := h placedReader .group [] [] [placedRow 0 "first"] [] placedBatch.rows (placedRow 1 "third")
    (placedRow 1 "third") (by decide)
      (List.mem_cons_of_mem _ List.mem_cons_self) rfl placed_alike
  have hagain : placedReader.verdictIn [placedBatch] placedBatch 1 = some none := by decide +kernel
  cases hagain.symm.trans (hsame.trans verdictIn_placed)

end sample

end Kryptolog.Client
