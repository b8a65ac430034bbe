import Mathlib.Data.List.Chain
import Kryptolog.Client.BodyInjectivity
import Kryptolog.Client.SessionIsolation

/-! # What the freshness verdicts say

A page of history is judged message by message against a record of each session. The verdicts are compared
with the messages of a session in order: the first that breaks the sequence is the first that is flagged.
-/

namespace Kryptolog.Client
set_option autoImplicit false

open Script Fallible Delimited
open Server (Kind)

/-! ## Sessions as sequences -/

/-- One sender's messages in one session of a conversation. -/
structure SequenceId where
  conversation : Text
  sid : Text
  sender : Text
  deriving DecidableEq

/-- The name under which the deliveries of a session are kept. -/
def SequenceId.key (s : SequenceId) : Text :=
  s.conversation ++ .char ':' :: s.sid ++ .char ':' :: s.sender

/-- The signed time is within the allowed skew of the server's, and the position is the one after the message
before. -/
def Dated.follows (d : Dated) (previous : Option ℕ) : Bool := !d.isSkewed && previous.all (d.seq == · + 1)

/-- The first message that does not follow the one before it. -/
def firstBreak : Option ℕ → List Dated → Option Dated
  | _, [] => none
  | previous, d :: ds => if d.follows previous then firstBreak (some d.seq) ds else some d

/-- The positions increase by one from each message to the next, and every signed time is within the skew. -/
def InSequence (ds : List Dated) : Prop :=
  (∀ d ∈ ds, d.isSkewed = false) ∧ ds.IsChain fun d d' => d'.seq = d.seq + 1

namespace Reader

variable (env : Reader) (mode : Kind)

/-- A verified message that carries a valid time and position. -/
def isJudged (row : MessageRow) : Bool :=
  decide (env.verified mode row = some true) && (sessionPayload mode (env.parseJson row.content)).any fun p =>
    (count p "ts").isSome && (count p "seq").isSome

/-- The session of a row that is judged, and what it signs. -/
def sequenceOf (row : MessageRow) : Option (SequenceId × Dated) :=
  if env.verified mode row = some true then do
    let p ← sessionPayload mode (env.parseJson row.content)
    let ts ← count p "ts"
    let seq ← count p "seq"
    let sid ← ((p.get "sid").getD .null).toText
    some (⟨conversationIdForMessage row env.me mode, sid, toLowerCase row.senderAddress⟩,
      ⟨row.id, ts, seq, row.createdAt⟩)
  else none

/-- The messages of a session among the rows, in their order. -/
def sequence (s : SequenceId) (rows : List MessageRow) : List Dated :=
  rows.filterMap fun row => ((env.sequenceOf mode row).filter (·.1 = s)).map (·.2)

end Reader

section follows

variable {ds : List Dated} {d : Dated} {previous : Option ℕ}

theorem firstBreak_eq_none : firstBreak previous ds = none ↔
    (∀ d ∈ ds, d.isSkewed = false) ∧ ds.IsChain (fun d d' => d'.seq = d.seq + 1) ∧
      ∀ d ∈ ds.head?, ∀ q ∈ previous, d.seq = q + 1 := by
  induction ds generalizing previous with
  | nil => simp [firstBreak]
  | cons d ds ih =>
    rw [firstBreak]
    cases hfollows : d.follows previous with
    | false =>
      rw [if_neg Bool.false_ne_true]
      refine iff_of_false (by simp) ?_
      rintro ⟨hskew, -, hhead⟩
      have hd : d.follows previous = true := by
        rw [Dated.follows, hskew d List.mem_cons_self]
        cases previous with
        | none => rfl
        | some q => simpa using hhead d rfl q rfl
      rw [hfollows] at hd
      cases hd
    | true =>
      rw [if_pos rfl, ih, List.forall_mem_cons, List.isChain_cons]
      obtain ⟨hskew, hprevious⟩ := Bool.and_eq_true_iff.mp hfollows
      have hskew : d.isSkewed = false := by simpa using hskew
      constructor
      · rintro ⟨hall, hchain, hhead⟩
        refine ⟨⟨hskew, hall⟩, ⟨fun d' hd' => hhead d' hd' _ rfl, hchain⟩, fun d' hd' q hq => ?_⟩
        obtain rfl := Option.some.inj hd'
        obtain rfl := Option.mem_def.mp hq
        simpa using hprevious
      · rintro ⟨⟨-, hall⟩, ⟨hhead, hchain⟩, -⟩
        refine ⟨hall, hchain, fun d' hd' q hq => ?_⟩
        obtain rfl := Option.some.inj hq
        exact hhead d' hd'

theorem firstBreak_none_iff : firstBreak none ds = none ↔ InSequence ds := by
  rw [firstBreak_eq_none, InSequence]
  simp

/-! ### What the record knows -/

/-- The record of deliveries at positions that follow one another. -/
structure Tracks (ds : List Dated) (state : Delivered) : Prop where
  ids : ∀ q, state.ids.lookup q = (ds.find? (·.seq == q)).map (·.id)
  maxSeq : state.maxSeq = ds.getLast?.map (·.seq)
  maxAt : state.maxAt = ds.getLast?.bind (·.deliveredAt)
  le : ∀ d ∈ ds, ∀ q ∈ state.maxSeq, d.seq ≤ q

def Delivered.empty : Delivered := ⟨[], none, none⟩

theorem Tracks.empty : Tracks [] .empty where
  ids _ := rfl
  maxSeq := rfl
  maxAt := rfl
  le := by simp

variable {state : Delivered}

theorem Tracks.lookup_none (h : Tracks ds state) (hall : state.maxSeq.all (d.seq == · + 1) = true) :
    state.ids.lookup d.seq = none := by
  rw [h.ids, Option.map_eq_none_iff, List.find?_eq_none]
  intro d' hd'
  have hle := h.le d' hd'
  cases hmax : state.maxSeq with
  | none =>
    rw [h.maxSeq, Option.map_eq_none_iff, List.getLast?_eq_none_iff] at hmax
    rw [hmax] at hd'
    cases hd'
  | some q =>
    rw [hmax] at hall
    have hseq : d.seq = q + 1 := by simpa using hall
    have := hle q hmax
    simp only [beq_iff_eq]
    omega

/-- At the position after the highest, only the time of a message may be flagged. -/
theorem Tracks.judge_next (h : Tracks ds state) (hall : state.maxSeq.all (d.seq == · + 1) = true) :
    d.judge state none = if d.isSkewed then some .skew else none := by
  have hlookup := h.lookup_none hall
  have hreplayed : d.isReplayed state = false := by rw [Dated.isReplayed, hlookup]; rfl
  have hreordered : d.isReordered state = false := by
    rw [Dated.isReordered]
    cases hmax : state.maxSeq with
    | none => simp
    | some q =>
      rw [hmax] at hall
      have hseq : d.seq = q + 1 := by simpa using hall
      simp [hseq]
  have hgap : d.isGap state = false := by
    rw [Dated.isGap]
    cases hmax : state.maxSeq with
    | none => simp
    | some q =>
      rw [hmax] at hall
      have hseq : d.seq = q + 1 := by simpa using hall
      simp [hseq]
  simp [Dated.judge, hreplayed, hreordered, hgap]

/-- A message that follows is not flagged. -/
theorem Tracks.judge_follows (h : Tracks ds state) (hfollows : d.follows state.maxSeq = true) :
    d.judge state none = none := by
  obtain ⟨hskew, hall⟩ := Bool.and_eq_true_iff.mp hfollows
  have hskew : d.isSkewed = false := by simpa using hskew
  rw [h.judge_next hall, hskew, if_neg Bool.false_ne_true]

/-- A message that does not follow is flagged. -/
theorem Tracks.judge_breaks (h : Tracks ds state) (hids : ∀ d' ∈ ds, d'.id ≠ d.id)
    (hlatest : d.isLatest state = true) (hbreaks : d.follows state.maxSeq = false) :
    (d.judge state none).isSome = true := by
  rw [Dated.judge]
  split
  · rfl
  · next hreplayed =>
    cases hskew : d.isSkewed with
    | true =>
      simp only [if_true]
      split
      · rfl
      · split
        · rfl
        · rfl
    | false =>
      have hpast : state.maxSeq.all (d.seq == · + 1) = false := by simpa [Dated.follows, hskew] using hbreaks
      obtain ⟨q, hq⟩ : ∃ q, state.maxSeq = some q := by
        cases hmax : state.maxSeq with
        | none => simp [hmax] at hpast
        | some q => exact ⟨q, rfl⟩
      have hseq : d.seq ≠ q + 1 := by simpa [hq] using hpast
      have hlookup : state.ids.lookup d.seq = none := by
        rw [Dated.isReplayed, h.ids] at hreplayed
        rw [h.ids, Option.map_eq_none_iff]
        cases hfind : ds.find? (·.seq == d.seq) with
        | none => rfl
        | some d' =>
          rw [hfind] at hreplayed
          exact absurd (hids d' (List.mem_of_find?_eq_some hfind)) (by simpa using hreplayed)
      rcases Nat.lt_or_ge q d.seq with hlt | hle
      · have hgap : d.isGap state = true := by
          have : q + 1 < d.seq := by omega
          simp [Dated.isGap, hlatest, hq, this]
        have hreordered : d.isReordered state = false := by
          simp [Dated.isReordered, hlatest, hq, hlookup, hlt]
        simp [hreordered, hgap]
      · have hreordered : d.isReordered state = true := by
          simp [Dated.isReordered, hlatest, hq, hlookup, hle]
        simp [hreordered]

/-- The record after a message at the position after the highest. -/
theorem Tracks.record (h : Tracks ds state) (hall : state.maxSeq.all (d.seq == · + 1) = true)
    (hlatest : d.isLatest state = true) : Tracks (ds ++ [d]) (d.record state) := by
  have hlookup := h.lookup_none hall
  have hreplayed : d.isReplayed state = false := by rw [Dated.isReplayed, hlookup]; rfl
  have hhigher : state.maxSeq.all (· < d.seq) = true := by
    cases hmax : state.maxSeq with
    | none => rfl
    | some q =>
      rw [hmax] at hall
      have hseq : d.seq = q + 1 := by simpa using hall
      simp [hseq]
  have hrecord : d.record state = ⟨(d.seq, d.id) :: state.ids, some d.seq, d.deliveredAt⟩ := by
    simp [Dated.record, hreplayed, hlookup, hlatest, hhigher]
  rw [hrecord]
  refine ⟨fun q => ?_, by simp, by simp, fun d' hd' q hq => ?_⟩
  · rw [List.lookup_cons, List.find?_append]
    by_cases hseq : q = d.seq
    · subst hseq
      have hnone : ds.find? (·.seq == d.seq) = none := Option.map_eq_none_iff.mp ((h.ids _).symm.trans hlookup)
      simp [hnone]
    · have hne : (q == d.seq) = false := by simpa using hseq
      have hnot : (d.seq == q) = false := by simpa using Ne.symm hseq
      simp [hne, hnot, h.ids]
  · obtain rfl : d.seq = q := Option.some.inj hq
    rcases List.mem_append.mp hd' with hd' | hd'
    · cases hmax : state.maxSeq with
      | none =>
        rw [h.maxSeq, Option.map_eq_none_iff, List.getLast?_eq_none_iff] at hmax
        rw [hmax] at hd'
        cases hd'
      | some q =>
        have hle := h.le d' hd' q hmax
        have hlt : q < d.seq := by simpa [hmax] using hhigher
        omega
    · rw [List.mem_singleton.mp hd']

/-- The first message that is flagged is the first that breaks the sequence. -/
theorem Tracks.find_flagged {flagged : Dated → Bool} {pre : List Dated} (h : Tracks pre state)
    (hflagged : ∀ mid d post, ds = mid ++ d :: post →
      flagged d = (d.judge (mid.foldl (fun state d => d.record state) state) none).isSome)
    (hids : (pre ++ ds).Pairwise fun d d' => d.id ≠ d'.id)
    (hlatest : (pre ++ ds).Pairwise fun d d' => ∃ t t', d.deliveredAt = some t ∧ d'.deliveredAt = some t' ∧ t ≤ t')
    (hfinite : ∀ d ∈ ds, d.deliveredAt.isSome = true) :
    ds.find? flagged = firstBreak state.maxSeq ds := by
  induction ds generalizing pre state with
  | nil => rfl
  | cons d ds ih =>
    have hd := hflagged [] d ds rfl
    rw [List.foldl_nil] at hd
    have hlast : d.isLatest state = true := by
      obtain ⟨t, ht⟩ := Option.isSome_iff_exists.mp (hfinite d List.mem_cons_self)
      rw [Dated.isLatest, ht, Option.any_some]
      refine Option.all_eq_true _ _ |>.mpr fun t₀ ht₀ => ?_
      rw [h.maxAt, Option.bind_eq_some_iff] at ht₀
      obtain ⟨last, hlast, hat⟩ := ht₀
      obtain ⟨_, _, hat', ht', hle⟩ := (List.pairwise_append.mp hlatest).2.2 last
        (List.mem_of_getLast? hlast) d List.mem_cons_self
      obtain rfl := Option.some.inj (hat.symm.trans hat')
      obtain rfl := Option.some.inj (ht.symm.trans ht')
      simpa using hle
    rw [List.find?_cons, firstBreak, hd]
    cases hfollows : d.follows state.maxSeq with
    | false =>
      have hold : ∀ d' ∈ pre, d'.id ≠ d.id := by
        intro d' hd'
        exact (List.pairwise_append.mp hids).2.2 d' hd' d List.mem_cons_self
      rw [h.judge_breaks hold hlast hfollows]
      rfl
    | true =>
      rw [h.judge_follows hfollows]
      have hrecord := h.record (Bool.and_eq_true_iff.mp hfollows).2 hlast
      have hmax : (d.record state).maxSeq = some d.seq := by simpa using hrecord.maxSeq
      rw [if_pos rfl, ← hmax]
      refine ih hrecord (fun mid d' post heq => ?_) ?_ ?_ fun d' hd' => hfinite d' (List.mem_cons_of_mem _ hd')
      · exact hflagged (d :: mid) d' post (by rw [heq]; rfl)
      · rwa [List.append_assoc]
      · rwa [List.append_assoc]

end follows

/-! ## Pages -/

/-- `assessFreshness`, on the messages that are judged, each with the name of its session. -/
def assessAll : List (Text × Dated) → (ℕ → Option Freshness) → Seen → (ℕ → Option Freshness) × Seen
  | [], verdicts, seen => (verdicts, seen)
  | (key, d) :: es, verdicts, seen =>
    let state := (seen key).getD .empty
    assessAll es (fun id => if id = d.id then d.judge state (verdicts id) else verdicts id)
      (fun k => if k = key then some (d.record state) else seen k)

section pages

variable {es : List (Text × Dated)} {verdicts : ℕ → Option Freshness} {seen : Seen} {key : Text} {d : Dated}

theorem assessAll_other {id : ℕ} (h : ∀ e ∈ es, e.2.id ≠ id) : (assessAll es verdicts seen).1 id = verdicts id := by
  induction es generalizing verdicts seen with
  | nil => rfl
  | cons e es ih =>
    obtain ⟨he, hes⟩ := List.forall_mem_cons.mp h
    rw [assessAll, ih hes, if_neg (Ne.symm he)]

/-- The messages under a name. -/
def under (key : Text) (es : List (Text × Dated)) : List Dated := (es.filter (·.1 = key)).map (·.2)

/-- A message is judged by what was delivered under its name before it. -/
theorem assessAll_verdict {pre post : List (Text × Dated)}
    (hids : (pre ++ (key, d) :: post).Pairwise fun e e' => e.2.id ≠ e'.2.id) :
    (assessAll (pre ++ (key, d) :: post) verdicts seen).1 d.id =
      d.judge ((under key pre).foldl (fun state d => d.record state) ((seen key).getD .empty)) (verdicts d.id) := by
  induction pre generalizing verdicts seen with
  | nil =>
    obtain ⟨hpost, -⟩ := List.pairwise_cons.mp hids
    rw [List.nil_append, assessAll, assessAll_other fun e he => (hpost e he).symm, if_pos rfl]
    rfl
  | cons e pre ih =>
    obtain ⟨key', d'⟩ := e
    obtain ⟨hfirst, hids⟩ := List.pairwise_cons.mp hids
    have hne : d.id ≠ d'.id := (hfirst (key, d) (by simp)).symm
    rw [List.cons_append, assessAll, ih hids, if_neg hne]
    by_cases hkey : key = key'
    · subst hkey
      simp [under]
    · simp [under, hkey, Ne.symm hkey]

/-- What is kept under a name after a page. -/
theorem assessAll_seen : ((assessAll es verdicts seen).2 key).getD .empty =
    (under key es).foldl (fun state d => d.record state) ((seen key).getD .empty) := by
  induction es generalizing verdicts seen with
  | nil => rfl
  | cons e es ih =>
    obtain ⟨key', d⟩ := e
    rw [assessAll, ih]
    by_cases hkey : key = key'
    · subst hkey
      simp [under]
    · simp [under, hkey, Ne.symm hkey]

/-- In each session the first message that is flagged is the first that breaks the sequence. -/
theorem assessAll_first (hids : es.Pairwise fun e e' => e.2.id ≠ e'.2.id)
    (hchronological : es.Pairwise fun e e' =>
      ∃ t t', e.2.deliveredAt = some t ∧ e'.2.deliveredAt = some t' ∧ t ≤ t')
    (hfinite : ∀ e ∈ es, e.2.deliveredAt.isSome = true) :
    (under key es).find? (fun d => ((assessAll es (fun _ => none) (fun _ => none)).1 d.id).isSome) =
      firstBreak none (under key es) := by
  have hunder : ∀ {R : Dated → Dated → Prop}, es.Pairwise (fun e e' => R e.2 e'.2) → (under key es).Pairwise R :=
    fun h => (h.filter _).map _ fun _ _ h => h
  refine Tracks.empty.find_flagged (fun mid d post heq => ?_) (hunder hids) (hunder hchronological) ?_
  · -- where the message stands in the page
    obtain ⟨front, back, hfilter, rfl, hback⟩ := List.map_eq_append_iff.mp heq
    obtain ⟨⟨key', d'⟩, back, rfl, rfl, -⟩ := List.map_eq_cons_iff.mp hback
    obtain ⟨left, right, rfl, rfl, hright⟩ := List.filter_eq_append_iff.mp hfilter
    obtain ⟨skipped, rest, rfl, hskipped, hkey, -⟩ := List.filter_eq_cons_iff.mp hright
    obtain rfl : key' = key := by simpa using hkey
    have hpre : under key' (left ++ skipped) = (left.filter (·.1 = key')).map (·.2) := by
      rw [under, List.filter_append, List.filter_eq_nil_iff.mpr hskipped, List.append_nil]
    rw [← List.append_assoc] at hids ⊢
    rw [assessAll_verdict hids, hpre]
    rfl
  · intro d hd
    obtain ⟨e, he, rfl⟩ := List.mem_map.mp hd
    exact hfinite e (List.mem_of_mem_filter he)

end pages

/-! ## Names of sessions -/

section names

variable {env : Reader} {mode : Kind} {row : MessageRow} {p : Value} {s s' : SequenceId} {d d' : Dated}

theorem notMem_of_consistsOf {test : Char → Bool} {c : Char} {t : Text} (hc : test c = false)
    (h : Text.consistsOf test t = true) : .char c ∉ t := by
  intro hmem
  have htest := List.all_eq_true.mp h _ hmem
  exact absurd (hc.symm.trans htest) Bool.false_ne_true

/-- A verified message names its session, its sender and its conversation in the letters of identifiers. -/
theorem verified_parts (hv : env.verified mode row = some true)
    (hp : sessionPayload mode (env.parseJson row.content) = some p) :
    ∃ sid conv, p.get "sid" = some (.str sid) ∧ isIdentifierText sid = true ∧
      isAddress (.str (toLowerCase row.senderAddress)) = true ∧
      Messenger.deliveredConversation row p mode = some conv ∧
      (isAddress (.str conv) || isSignedIdentifier (.str conv)) = true := by
  have hparsed : env.parseJson row.content = some p := (Option.filter_eq_some_iff.mp hp).1
  rw [Reader.verified, hparsed] at hv
  simp only [Messenger.verifyMessageAuthenticity] at hv
  split at hv
  · cases hv
  · split at hv
    · cases hv
    · next conv hconv =>
      split at hv
      · cases hv
      · next body hbody =>
        rw [Messenger.signedBody, messageSigningBody] at hbody
        obtain ⟨_, hsender, hbody⟩ := bind_eq_ok.mp hbody
        obtain ⟨_, hconversation, hbody⟩ := bind_eq_ok.mp hbody
        obtain ⟨_, -, hbody⟩ := bind_eq_ok.mp hbody
        obtain ⟨_, hsid, -⟩ := bind_eq_ok.mp hbody
        have hsid : isSignedIdentifier ((p.get "sid").getD .null) = true := need_eq_ok.mp hsid
        cases hget : p.get "sid" with
        | none =>
          rw [hget] at hsid
          cases hsid
        | some v =>
          rw [hget] at hsid
          cases v with
          | str sid => exact ⟨sid, conv, rfl, hsid, need_eq_ok.mp hsender, hconv, need_eq_ok.mp hconversation⟩
          | _ => cases hsid

theorem colon_notMem_address {t : Text} (h : isAddress (.str t) = true) : .char ':' ∉ t :=
  notMem_of_consistsOf (by decide) (Bool.and_eq_true_iff.mp h).2

theorem colon_notMem_identifier {t : Text} (h : isIdentifierText t = true) : .char ':' ∉ t :=
  notMem_of_consistsOf (by decide) (Bool.and_eq_true_iff.mp (Bool.and_eq_true_iff.mp h).1).1

theorem colon_notMem_group {t : Text} (h : .char ':' ∉ t) : .char ':' ∉ lit "group_" ++ t := by
  intro hmem
  rcases List.mem_append.mp hmem with hmem | hmem
  · exact absurd hmem (by decide)
  · exact h hmem

/-- The parts of a session's name hold no colon. -/
structure SequenceId.IsPlain (s : SequenceId) : Prop where
  conversation : .char ':' ∉ s.conversation
  sid : .char ':' ∉ s.sid

theorem SequenceId.IsPlain.key_inj (hs : s.IsPlain) (hs' : s'.IsPlain) (h : s.key = s'.key) : s = s' := by
  simp only [SequenceId.key, List.append_assoc, List.cons_append] at h
  obtain ⟨hconversation, hrest⟩ := append_cons_inj hs.conversation hs'.conversation h
  obtain ⟨hsid, hsender⟩ := append_cons_inj hs.sid hs'.sid hrest
  cases s
  cases s'
  simp only at hconversation hsid hsender
  rw [hconversation, hsid, hsender]

theorem sequenceOf_eq_some : env.sequenceOf mode row = some (s, d) ↔ env.verified mode row = some true ∧
    ∃ p ts seq sid, sessionPayload mode (env.parseJson row.content) = some p ∧ count p "ts" = some ts ∧
      count p "seq" = some seq ∧ ((p.get "sid").getD .null).toText = some sid ∧
      s = ⟨conversationIdForMessage row env.me mode, sid, toLowerCase row.senderAddress⟩ ∧
      d = ⟨row.id, ts, seq, row.createdAt⟩ := by
  rw [Reader.sequenceOf]
  split
  · next hv =>
    simp only [hv, true_and, Option.bind_eq_bind, Option.bind_eq_some_iff, Option.some.injEq, Prod.mk.injEq]
    constructor
    · rintro ⟨p, hp, ts, hts, seq, hseq, sid, hsid, rfl, rfl⟩
      exact ⟨p, ts, seq, sid, hp, hts, hseq, hsid, rfl, rfl⟩
    · rintro ⟨p, ts, seq, sid, hp, hts, hseq, hsid, rfl, rfl⟩
      exact ⟨p, hp, ts, hts, seq, hseq, sid, hsid, rfl, rfl⟩
  · next hv => simp [hv]

/-- What a row signs is dated as the row is. -/
theorem sequenceOf_dated (h : env.sequenceOf mode row = some (s, d)) :
    d.id = row.id ∧ d.deliveredAt = row.createdAt := by
  obtain ⟨-, p, ts, seq, sid, -, -, -, -, -, rfl⟩ := sequenceOf_eq_some.mp h
  exact ⟨rfl, rfl⟩

theorem sequenceOf_isPlain (h : env.sequenceOf mode row = some (s, d)) : s.IsPlain := by
  obtain ⟨hv, p, ts, seq, sid, hp, -, -, hsid, rfl, -⟩ := sequenceOf_eq_some.mp h
  obtain ⟨sid', conv, hget, hidentifier, hsender, hconv, hconversation⟩ := verified_parts hv hp
  rw [hget] at hsid
  obtain rfl := Option.some.inj hsid
  have hplain : .char ':' ∉ conv := by
    rcases Bool.or_eq_true_iff.mp hconversation with h | h
    · exact colon_notMem_address h
    · exact colon_notMem_identifier h
  refine ⟨?_, colon_notMem_identifier hidentifier⟩
  cases mode with
  | group =>
    refine colon_notMem_group ?_
    simp only [Messenger.deliveredConversation] at hconv
    split at hconv
    · split at hconv
      · obtain rfl := Option.some.inj hconv
        exact hplain
      · cases hconv
    · cases hconv
  | dm =>
    simp only [conversationIdForMessage]
    split
    · simp only [Messenger.deliveredConversation] at hconv
      split at hconv
      · cases hconv
      · obtain rfl := Option.some.inj hconv
        exact hplain
    · exact colon_notMem_address hsender

/-- A verified message takes the place of its session in the record, and no other message takes one. -/
theorem position_prepare : env.position mode (env.prepare mode row) =
    some ((env.sequenceOf mode row).map fun e => (e.1.key, e.2)) := by
  cases hp : sessionPayload mode (env.parseJson row.content) with
  | none => simp [Reader.position, Reader.prepare, Reader.sequenceOf, hp]
  | some p =>
    by_cases hv : env.verified mode row = some true
    · obtain ⟨sid, -, hget, -⟩ := verified_parts hv hp
      have htext : ((p.get "sid").getD .null).toText = some sid := by
        rw [hget]
        rfl
      have hkey : env.keyId mode row p = some (conversationIdForMessage row env.me mode ++ .char ':' :: sid) := by
        rw [Reader.keyId, sessionKeyId, htext]
        rfl
      cases hts : count p "ts" with
      | none => simp [Reader.position, Reader.prepare, Reader.sequenceOf, hp, hv, hts]
      | some ts =>
        cases hseq : count p "seq" with
        | none => simp [Reader.position, Reader.prepare, Reader.sequenceOf, hp, hv, hts, hseq]
        | some seq =>
          simp [Reader.position, Reader.prepare, Reader.sequenceOf, hp, hv, hts, hseq, htext, hkey, SequenceId.key]
    · simp [Reader.position, Reader.prepare, Reader.sequenceOf, hp, hv]

/-- The messages of a page that are judged, with the names of their sessions. -/
def Reader.entries (env : Reader) (mode : Kind) (rows : List MessageRow) : List (Text × Dated) :=
  rows.filterMap fun row => (env.sequenceOf mode row).map fun e => (e.1.key, e.2)

variable {rows : List MessageRow} {verdicts : ℕ → Option Freshness} {seen : Seen}

theorem assessFreshness_eq : env.assessFreshness mode (rows.map (env.prepare mode)) verdicts seen =
    (some (assessAll (env.entries mode rows) verdicts seen).1,
      (assessAll (env.entries mode rows) verdicts seen).2) := by
  induction rows generalizing verdicts seen with
  | nil => rfl
  | cons row rows ih =>
    rw [List.map_cons, Reader.assessFreshness, position_prepare, Reader.entries, List.filterMap_cons]
    cases env.sequenceOf mode row with
    | none => exact ih
    | some e => exact ih

theorem isJudged_of_sequenceOf (h : env.sequenceOf mode row = some (s, d)) : env.isJudged mode row = true := by
  obtain ⟨hv, p, ts, seq, sid, hp, hts, hseq, -, -, -⟩ := sequenceOf_eq_some.mp h
  simp [Reader.isJudged, hv, hp, hts, hseq]

/-- A message that is not judged has no entry. -/
theorem entries_filter : env.entries mode (rows.filter (env.isJudged mode)) = env.entries mode rows := by
  rw [Reader.entries, Reader.entries, List.filterMap_filter]
  refine List.filterMap_congr fun row _ => ?_
  split
  · rfl
  · next hjudged =>
    cases h : env.sequenceOf mode row with
    | none => rfl
    | some e => exact absurd (isJudged_of_sequenceOf h) hjudged

/-- The messages under the name of a session are those of the session. -/
theorem under_entries (hs : s.IsPlain) : under s.key (env.entries mode rows) = env.sequence mode s rows := by
  induction rows with
  | nil => rfl
  | cons row rows ih =>
    rw [under, Reader.entries] at ih
    rw [under, Reader.entries, Reader.sequence, List.filterMap_cons, List.filterMap_cons]
    cases h : env.sequenceOf mode row with
    | none => exact ih
    | some e =>
      by_cases he : e.1 = s
      · simp only [Option.map_some, Option.filter_some, he, decide_true, if_true]
        rw [List.filter_cons_of_pos (by simp), List.map_cons, ih]
        rfl
      · have hkey : e.1.key ≠ s.key := fun hkey => he ((sequenceOf_isPlain h).key_inj hs hkey)
        simp only [Option.map_some, Option.filter_some, he, decide_false, Bool.false_eq_true, if_false,
          Option.map_none]
        rw [List.filter_cons_of_neg (by simpa using hkey), ih]
        rfl

theorem sequence_eq_nil (hs : ¬ s.IsPlain) : env.sequence mode s rows = [] := by
  rw [Reader.sequence, List.filterMap_eq_nil_iff]
  intro row _
  cases h : env.sequenceOf mode row with
  | none => rfl
  | some e =>
    have hne : e.1 ≠ s := by
      rintro rfl
      exact hs (sequenceOf_isPlain h)
    simp [Option.filter_some, hne]

/-- The messages that are judged are dated as their rows are. -/
theorem entries_pairwise {R : ℕ → Option ℤ → ℕ → Option ℤ → Prop}
    (h : rows.Pairwise fun row row' => R row.id row.createdAt row'.id row'.createdAt) :
    (env.entries mode rows).Pairwise fun e e' => R e.2.id e.2.deliveredAt e'.2.id e'.2.deliveredAt := by
  refine List.Pairwise.filterMap _ (fun row row' hrow e he e' he' => ?_) h
  obtain ⟨⟨s, d⟩, hs, rfl⟩ := Option.map_eq_some_iff.mp he
  obtain ⟨⟨s', d'⟩, hs', rfl⟩ := Option.map_eq_some_iff.mp he'
  obtain ⟨hid, hat⟩ := sequenceOf_dated hs
  obtain ⟨hid', hat'⟩ := sequenceOf_dated hs'
  simp only [hid, hat, hid', hat']
  exact hrow

theorem mem_entries {e : Text × Dated} (h : e ∈ env.entries mode rows) : ∃ row ∈ rows, ∃ s,
    env.sequenceOf mode row = some (s, e.2) ∧ e.1 = s.key := by
  obtain ⟨row, hrow, he⟩ := List.mem_filterMap.mp h
  obtain ⟨⟨s, d⟩, hs, rfl⟩ := Option.map_eq_some_iff.mp he
  exact ⟨row, hrow, s, hs, rfl⟩

theorem mem_sequence : d ∈ env.sequence mode s rows ↔ ∃ row ∈ rows, env.sequenceOf mode row = some (s, d) := by
  rw [Reader.sequence, List.mem_filterMap]
  refine exists_congr fun row => and_congr_right fun _ => ?_
  cases env.sequenceOf mode row with
  | none => simp
  | some e =>
    obtain ⟨s', d'⟩ := e
    by_cases hs : s' = s <;> simp [Option.filter_some, hs]

/-- No message is flagged where every session is in sequence, and only there. -/
theorem unflagged_iff {verdicts : ℕ → Option Freshness} (hids : (rows.map (·.id)).Nodup)
    (hother : ∀ id, (∀ e ∈ env.entries mode rows, e.2.id ≠ id) → verdicts id = none)
    (hfirst : ∀ s, (env.sequence mode s rows).find? (fun d => (verdicts d.id).isSome) =
      firstBreak none (env.sequence mode s rows)) :
    (∀ row ∈ rows, verdicts row.id = none) ↔ ∀ s, InSequence (env.sequence mode s rows) := by
  constructor
  · intro hnone s
    rw [← firstBreak_none_iff, ← hfirst, List.find?_eq_none]
    intro d hd
    obtain ⟨row, hrow, hs⟩ := mem_sequence.mp hd
    rw [(sequenceOf_dated hs).1, hnone row hrow]
    exact Bool.false_ne_true
  · intro hsequence row hrow
    cases hs : env.sequenceOf mode row with
    | none =>
      refine hother row.id fun e he hid => ?_
      obtain ⟨row', hrow', s, hs', -⟩ := mem_entries he
      have hid' : row'.id = row.id := (sequenceOf_dated hs').1.symm.trans hid
      rw [List.inj_on_of_nodup_map hids hrow' hrow hid', hs] at hs'
      cases hs'
    | some e =>
      obtain ⟨s, d⟩ := e
      have hfind := hfirst s
      rw [firstBreak_none_iff.mpr (hsequence s), List.find?_eq_none] at hfind
      have hd := hfind d (mem_sequence.mpr ⟨row, hrow, hs⟩)
      rw [(sequenceOf_dated hs).1] at hd
      simpa using hd

end names

/-- A page is free of warnings where the positions of every session increase by one and its times are within
the skew; the first message of a session that breaks this is the first that is flagged; and the messages that
are not judged change no verdict. -/
theorem freshness_exact (env : Reader) (mode : Kind) (rows : List MessageRow) (hids : (rows.map (·.id)).Nodup)
    (hchronological : rows.Pairwise fun row row' =>
      ∃ t t', row.createdAt = some t ∧ row'.createdAt = some t' ∧ t ≤ t')
    (hfinite : ∀ row ∈ rows, row.createdAt.isSome = true) :
    ∃ verdicts seen, env.assessFreshness mode (rows.map (env.prepare mode)) (fun _ => none) (fun _ => none) =
        (some verdicts, seen) ∧
      ((∀ row ∈ rows, verdicts row.id = none) ↔ ∀ s, InSequence (env.sequence mode s rows)) ∧
      (∀ s, (env.sequence mode s rows).find? (fun d => (verdicts d.id).isSome) =
        firstBreak none (env.sequence mode s rows)) ∧
      ∀ rows' : List MessageRow, rows'.filter (env.isJudged mode) = rows.filter (env.isJudged mode) →
        env.assessFreshness mode (rows'.map (env.prepare mode)) (fun _ => none) (fun _ => none) =
          (some verdicts, seen) := by
  have hentries : (env.entries mode rows).Pairwise fun e e' => e.2.id ≠ e'.2.id :=
    entries_pairwise (R := fun id _ id' _ => id ≠ id') (List.pairwise_map.mp hids)
  have hdated : (env.entries mode rows).Pairwise fun e e' =>
      ∃ t t', e.2.deliveredAt = some t ∧ e'.2.deliveredAt = some t' ∧ t ≤ t' :=
    entries_pairwise (R := fun _ at_ _ at' => ∃ t t', at_ = some t ∧ at' = some t' ∧ t ≤ t') hchronological
  have hat : ∀ e ∈ env.entries mode rows, e.2.deliveredAt.isSome = true := by
    intro e he
    obtain ⟨row, hrow, s, hs, -⟩ := mem_entries he
    rw [(sequenceOf_dated hs).2]
    exact hfinite row hrow
  have hfirst : ∀ s, (env.sequence mode s rows).find? (fun d =>
      ((assessAll (env.entries mode rows) (fun _ => none) (fun _ => none)).1 d.id).isSome) =
        firstBreak none (env.sequence mode s rows) := by
    intro s
    by_cases hs : s.IsPlain
    · rw [← under_entries hs]
      exact assessAll_first hentries hdated hat
    · rw [sequence_eq_nil hs]
      rfl
  refine ⟨_, _, assessFreshness_eq, unflagged_iff hids (fun id => assessAll_other) hfirst, hfirst, ?_⟩
  intro rows' hrows'
  rw [assessFreshness_eq, ← entries_filter, hrows', entries_filter]

/-- The first message of a session, and a message whose position the first has taken. -/
def datedRows : List MessageRow :=
  [{ sharedRow 0 'a' "ka" with createdAt := some 0 }, { sharedRow 1 'a' "ka" with createdAt := some 1 }]

theorem freshness_exact_sample :
    ∃ verdicts seen, sharedReader.assessFreshness .group (datedRows.map (sharedReader.prepare .group))
        (fun _ => none) (fun _ => none) = (some verdicts, seen) ∧
      ((∀ row ∈ datedRows, verdicts row.id = none) ↔ ∀ s, InSequence (sharedReader.sequence .group s datedRows)) ∧
      (∀ s, (sharedReader.sequence .group s datedRows).find? (fun d => (verdicts d.id).isSome) =
        firstBreak none (sharedReader.sequence .group s datedRows)) ∧
      ∀ rows' : List MessageRow, rows'.filter (sharedReader.isJudged .group) =
          datedRows.filter (sharedReader.isJudged .group) →
        sharedReader.assessFreshness .group (rows'.map (sharedReader.prepare .group)) (fun _ => none)
          (fun _ => none) = (some verdicts, seen) :=
  freshness_exact sharedReader .group datedRows (by decide) (List.pairwise_pair.mpr ⟨0, 1, rfl, rfl, by decide⟩)
    (by decide)

end Kryptolog.Client
