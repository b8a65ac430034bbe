import Kryptolog.Client.SessionIsolation

/-! # Live and loaded messages

One row is handled as it arrives, or as a page of history of its own, in the same state. The two are compared
in what the page shows of it: the flag of its signature, whether it was redacted, its text and its freshness.
-/

namespace Kryptolog.Client
set_option autoImplicit false

open Script
open Server (Kind)

/-- Two messages look alike. -/
structure Received.LooksLike (m m' : Received) : Prop where
  verified : m.verified = m'.verified
  redacted : m.redacted = m'.redacted
  plainText : m.plainText = m'.plainText
  freshness : m.freshness = m'.freshness

/-- History shows the row as it was shown when it arrived. -/
def PathsAgree (env : Reader) (mode : Kind) (row : MessageRow) (granted : Bool) (keys : SessionKeys)
    (seen : Seen) : Prop :=
  ∃ m keys' seen', env.processMessages mode [row] granted keys seen = (some ([m], keys'), seen') ∧
    m.LooksLike (env.handleIncoming mode row keys)

/-- The content of the row is an object with a signature. -/
def Reader.isSigned (env : Reader) (row : MessageRow) : Bool :=
  (env.parseJson row.content).any fun p => present (p.get "sig")

/-- What was delivered by the sender of the row in a session. -/
def Seen.of (seen : Seen) (id : Text) (row : MessageRow) : Delivered :=
  (seen (id ++ .char ':' :: toLowerCase row.senderAddress)).getD ⟨[], none, none⟩

/-- History knows no more of a message of the session `id` with the payload `p` than its arrival. -/
structure NoMoreKnown (env : Reader) (mode : Kind) (row : MessageRow) (granted : Bool) (keys : SessionKeys)
    (seen : Seen) (p : Value) (id : Text) : Prop where
  /-- It was not redacted. -/
  kept : isRedacted p = false
  /-- A cached key opens it, where it is signed. -/
  cached : ∀ key, keys id = some key → env.isSigned row = true → (env.decrypt p key).isSome = true
  /-- Its own wrapped key, where the cache has none and may adopt it, does not open it. -/
  missing : keys id = none → mayAdoptSession row (env.verified mode row) mode env.me = true →
    ∀ blob key, keyBlob row mode env.me p = some blob → env.opened granted blob = some key →
      env.decrypt p key = none
  /-- It comes in time and in its place, where it is verified and has one. -/
  fresh : env.verified mode row = some true → ∀ ts seq, count p "ts" = some ts → count p "seq" = some seq →
    Dated.isReplayed ⟨row.id, ts, seq, row.createdAt⟩ (seen.of id row) = false ∧
      Dated.isSkewed ⟨row.id, ts, seq, row.createdAt⟩ = false ∧
      Dated.isReordered ⟨row.id, ts, seq, row.createdAt⟩ (seen.of id row) = false ∧
      Dated.isGap ⟨row.id, ts, seq, row.createdAt⟩ (seen.of id row) = false

/-- The row is no message of a session and has no signature, or history knows no more of it. -/
def ShownAlike (env : Reader) (mode : Kind) (row : MessageRow) (granted : Bool) (keys : SessionKeys)
    (seen : Seen) : Prop :=
  (sessionPayload mode (env.parseJson row.content) = none ∧ env.isSigned row = false) ∨
    ∃ p id, env.sessionOf mode row = some (p, id) ∧ NoMoreKnown env mode row granted keys seen p id

section paths

variable {env : Reader} {mode : Kind} {row : MessageRow} {granted : Bool} {keys : SessionKeys} {seen : Seen}
  {p : Value} {id : Text}

theorem verified_eq_none : env.verified mode row = none ↔ env.isSigned row = false := by
  simp only [Reader.verified, Messenger.verifyMessageAuthenticity, Reader.isSigned]
  cases env.parseJson row.content with
  | none => simp
  | some p =>
    cases hsig : p.get "sig" with
    | none => simp [present, hsig]
    | some sig =>
      by_cases htrue : sig.truthy = true
      · have hsigned : (some sig).filter Value.truthy = some sig := Option.filter_some_pos htrue
        simp only [hsigned, Option.any_some, present, hsig, htrue]
        split
        · simp
        · split
          · simp
          · split <;> simp
      · have hno : (some sig).filter Value.truthy = none := Option.filter_some_neg (by simpa using htrue)
        simp [hno, present, hsig, htrue]

theorem judge_eq_none (d : Dated) (state : Delivered) : d.judge state none = none ↔
    d.isReplayed state = false ∧ d.isSkewed = false ∧ d.isReordered state = false ∧ d.isGap state = false := by
  rw [Dated.judge]
  cases d.isReplayed state <;> cases d.isSkewed <;> cases d.isReordered state <;> cases d.isGap state <;> simp

/-! ### From history -/

/-- A page is shown only where the session id of its row has a text. -/
theorem isNamed_of_processed {r : List Received × SessionKeys} {seen' : Seen}
    (h : env.processMessages mode [row] granted keys seen = (some r, seen')) : env.IsNamed mode row := by
  intro hpayload
  by_contra hunnamed
  obtain ⟨p, hp⟩ := Option.isSome_iff_exists.mp hpayload
  have hid : env.keyId mode row p = none := by
    rw [Reader.sessionOf, hp, Option.bind_some, Option.isSome_map, Bool.not_eq_true, Option.isSome_eq_false_iff,
      Option.isNone_iff_eq_none] at hunnamed
    exact hunnamed
  have hopen : ∀ verdict, env.open_ mode [env.shown mode row verdict none] granted keys = none := by
    intro verdict
    have hcached : env.decryptCached mode keys (env.shown mode row verdict none) = none := by
      simp [Reader.decryptCached, Reader.shown, Reader.prepare, hp, hid]
    rw [Reader.open_, List.mapM_cons, hcached]
    rfl
  have hfailed : (env.processMessages mode [row] granted keys seen).1 = none := by
    simp only [Reader.processMessages, Option.bind_eq_none_iff]
    exact fun verdicts _ => hopen (verdicts row.id)
  rw [h] at hfailed
  cases hfailed

/-- The verdict on a single row. -/
theorem verdict_eq (h : env.sessionOf mode row = some (p, id)) : ∃ verdicts seen',
    env.assessFreshness mode [env.prepare mode row] (fun _ => none) seen = (some verdicts, seen') ∧
      (verdicts row.id = none ↔ env.verified mode row = some true →
        ∀ ts seq, count p "ts" = some ts → count p "seq" = some seq →
          Dated.judge ⟨row.id, ts, seq, row.createdAt⟩ (seen.of id row) none = none) := by
  obtain ⟨hp, hid⟩ := sessionOf_eq_some.mp h
  have hplace : ∀ {ts seq}, env.verified mode row = some true → count p "ts" = some ts → count p "seq" = some seq →
      env.position mode (env.prepare mode row) =
        some (some (id ++ .char ':' :: toLowerCase row.senderAddress, ⟨row.id, ts, seq, row.createdAt⟩)) := by
    intro ts seq hv hts hseq
    simp [Reader.position, Reader.prepare, hp, hid, hv, hts, hseq]
  have hnoplace : (env.verified mode row = some true → count p "ts" = none ∨ count p "seq" = none) →
      env.position mode (env.prepare mode row) = some none := by
    intro hno
    by_cases hv : env.verified mode row = some true
    · cases hts : count p "ts" with
      | none => simp [Reader.position, Reader.prepare, hp, hv, hts]
      | some ts =>
        have hseq : count p "seq" = none := (hno hv).resolve_left (by simp [hts])
        simp [Reader.position, Reader.prepare, hp, hv, hts, hseq]
    · simp [Reader.position, Reader.prepare, hp, hv]
  by_cases hall : env.verified mode row = some true ∧ ∃ ts seq, count p "ts" = some ts ∧ count p "seq" = some seq
  · obtain ⟨hv, ts, seq, hts, hseq⟩ := hall
    simp only [Reader.assessFreshness, hplace hv hts hseq]
    exact ⟨_, _, rfl, by simp [hv, hts, hseq, Seen.of]⟩
  · have hno : env.verified mode row = some true → count p "ts" = none ∨ count p "seq" = none := by
      intro hv
      cases hts : count p "ts" with
      | none => exact .inl rfl
      | some ts =>
        cases hseq : count p "seq" with
        | none => exact .inr rfl
        | some seq => exact absurd ⟨hv, ts, seq, hts, hseq⟩ hall
    simp only [Reader.assessFreshness, hnoplace hno]
    refine ⟨_, _, rfl, ⟨fun _ hv ts seq hts hseq => ?_, fun _ => rfl⟩⟩
    exact absurd ⟨hv, ts, seq, hts, hseq⟩ hall

theorem verdict_none (h : sessionPayload mode (env.parseJson row.content) = none) :
    env.assessFreshness mode [env.prepare mode row] (fun _ => none) seen = (some fun _ => none, seen) := by
  have hposition : env.position mode (env.prepare mode row) = some none := by
    simp only [Reader.position, Reader.prepare, h]
  simp only [Reader.assessFreshness, hposition]

/-- What a page of one row shows, beside what its arrival shows. -/
theorem pathsAgree_named {verdicts : ℕ → Option Freshness} {seen' : Seen} (h : env.IsNamed mode row)
    (hfresh : env.assessFreshness mode [env.prepare mode row] (fun _ => none) seen = (some verdicts, seen')) :
    PathsAgree env mode row granted keys seen ↔
      (env.shown mode row (verdicts row.id)
        (env.plainText mode (env.keysAfter mode [row] granted keys) row)).LooksLike
          (env.handleIncoming mode row keys) := by
  have hrows : ∀ r ∈ [row], env.IsNamed mode r := fun r hr => List.mem_singleton.mp hr ▸ h
  have hprocess : env.processMessages mode [row] granted keys seen =
      (some ([env.shown mode row (verdicts row.id)
        (env.plainText mode (env.keysAfter mode [row] granted keys) row)],
          env.keysAfter mode [row] granted keys), seen') := processMessages_eq hrows hfresh
  constructor
  · rintro ⟨m, keys', seen'', hload, halike⟩
    rw [hprocess] at hload
    obtain ⟨hm, -⟩ := Prod.mk.inj (Option.some.inj (Prod.mk.inj hload).1)
    exact (List.cons.inj hm).1 ▸ halike
  · exact fun halike => ⟨_, _, _, hprocess, halike⟩

/-! ### The two paths -/

theorem isNamed_of_sessionOf (h : env.sessionOf mode row = some (p, id)) : env.IsNamed mode row := fun _ => by
  rw [h]
  rfl

theorem handleIncoming_some (h : env.sessionOf mode row = some (p, id)) : env.handleIncoming mode row keys =
    ⟨row, if (keys id).any fun key => (env.decrypt p key).isNone then none else env.verified mode row, false, none,
      (keys id).bind (env.decrypt p), none⟩ := by
  rw [Reader.handleIncoming, h]
  cases hkey : keys id with
  | none => simp [hkey]
  | some key => cases hd : env.decrypt p key <;> simp [hkey, hd]

/-- A row that is no message of a session is loaded with the flag of its signature alone. -/
theorem pathsAgree_none (h : sessionPayload mode (env.parseJson row.content) = none) :
    PathsAgree env mode row granted keys seen ↔ env.isSigned row = false := by
  have hsession : env.sessionOf mode row = none := by rw [Reader.sessionOf, h, Option.bind_none]
  have hnamed : env.IsNamed mode row := fun hsome => by rw [h] at hsome; cases hsome
  have hlive : env.handleIncoming mode row keys = ⟨row, none, false, none, none, none⟩ := by
    rw [Reader.handleIncoming, hsession]
  rw [pathsAgree_named hnamed (verdict_none h), hlive, ← verified_eq_none]
  constructor
  · exact fun halike => halike.verified
  · intro hunsigned
    refine ⟨hunsigned, ?_, ?_, rfl⟩
    · simp only [Reader.shown, Reader.prepare, h, Option.any_none]
    · simp only [Reader.shown, Reader.plainText, hsession, Option.bind_none]

theorem verified_alike : env.verified mode row =
    (if (keys id).any fun key => (env.decrypt p key).isNone then none else env.verified mode row) ↔
      ∀ key, keys id = some key → env.isSigned row = true → (env.decrypt p key).isSome = true := by
  cases hkey : keys id with
  | none => simp
  | some key =>
    cases hd : env.decrypt p key with
    | some text => simp [hd]
    | none => simp [hd, verified_eq_none]

theorem plainText_alike (h : env.sessionOf mode row = some (p, id)) (hkept : isRedacted p = false) :
    env.plainText mode (env.keysAfter mode [row] granted keys) row = (keys id).bind (env.decrypt p) ↔
      (keys id = none → mayAdoptSession row (env.verified mode row) mode env.me = true →
        ∀ blob key, keyBlob row mode env.me p = some blob → env.opened granted blob = some key →
          env.decrypt p key = none) := by
  simp only [Reader.plainText, h, Option.bind_some, hkept, Bool.false_eq_true, if_false]
  rw [Reader.keysAfter, offered_some h]
  cases hkey : keys id with
  | some key => simp
  | none =>
    by_cases hmay : mayAdoptSession row (env.verified mode row) mode env.me = true
    · simp only [hmay, and_self, if_true, Option.none_or, Option.bind_none, Option.bind_eq_none_iff, true_implies]
      constructor
      · exact fun hread blob key hblob hopen => hread key (Option.bind_eq_some_iff.mpr ⟨blob, hblob, hopen⟩)
      · intro hread key hopen
        obtain ⟨blob, hblob, hkey⟩ := Option.bind_eq_some_iff.mp hopen
        exact hread blob key hblob hkey
    · simp [hmay]

/-- A message of a session shows alike where history knows no more of it. -/
theorem pathsAgree_some (h : env.sessionOf mode row = some (p, id)) :
    PathsAgree env mode row granted keys seen ↔ NoMoreKnown env mode row granted keys seen p id := by
  obtain ⟨verdicts, seen', hfresh, hverdict⟩ := @verdict_eq env mode row seen p id h
  have hredacted : (env.prepare mode row).redacted = isRedacted p := by
    simp only [Reader.prepare, (sessionOf_eq_some.mp h).1, Option.any_some]
  rw [pathsAgree_named (isNamed_of_sessionOf h) hfresh, handleIncoming_some h]
  simp only [judge_eq_none] at hverdict
  constructor
  · rintro ⟨hverified, hred, htext, hnofresh⟩
    have hkept : isRedacted p = false := hredacted.symm.trans hred
    exact ⟨hkept, verified_alike.mp hverified, (plainText_alike h hkept).mp htext, hverdict.mp hnofresh⟩
  · rintro ⟨hkept, hcached, hmissing, hnofresh⟩
    exact ⟨verified_alike.mpr hcached, hredacted.trans hkept, (plainText_alike h hkept).mpr hmissing,
      hverdict.mpr hnofresh⟩

end paths

/-- The two paths agree on a row exactly where it is no message of a session and has no signature, or where
history knows no more of it than its arrival. -/
theorem paths_agree_iff (env : Reader) (mode : Kind) (row : MessageRow) (granted : Bool) (keys : SessionKeys)
    (seen : Seen) : PathsAgree env mode row granted keys seen ↔ ShownAlike env mode row granted keys seen := by
  obtain hnone | ⟨p, hp⟩ := Option.eq_none_or_eq_some (sessionPayload mode (env.parseJson row.content))
  · rw [pathsAgree_none hnone, ShownAlike]
    constructor
    · exact fun hunsigned => .inl ⟨hnone, hunsigned⟩
    · rintro (⟨-, hunsigned⟩ | ⟨p, id, hsession, -⟩)
      · exact hunsigned
      · rw [(sessionOf_eq_some.mp hsession).1] at hnone
        cases hnone
  · constructor
    · intro hagree
      have hnamed : env.IsNamed mode row := by
        obtain ⟨m, keys', seen', hload, -⟩ := hagree
        exact isNamed_of_processed hload
      obtain ⟨⟨p', id⟩, hsession⟩ := Option.isSome_iff_exists.mp (hnamed (by rw [hp]; rfl))
      exact .inr ⟨p', id, hsession, (pathsAgree_some hsession).mp hagree⟩
    · rintro (⟨hnone, -⟩ | ⟨p', id, hsession, hknown⟩)
      · rw [hnone] at hp
        cases hp
      · exact (pathsAgree_some hsession).mpr hknown

/-- The first message of a session, which arrives unread and is read in history. -/
theorem not_paths_agree : ¬ ∀ (env : Reader) (mode : Kind) (row : MessageRow) (granted : Bool) (keys : SessionKeys)
    (seen : Seen), PathsAgree env mode row granted keys seen := by
  intro h
  obtain ⟨m, keys', seen', hload, halike⟩ := h sharedReader .group (sharedRow 0 'a' "ka") true (fun _ => none)
    fun _ => none
  have hlive : (sharedReader.handleIncoming .group (sharedRow 0 'a' "ka") fun _ => none).plainText = none := by
    decide +kernel
  have hread : (sharedReader.processMessages .group [sharedRow 0 'a' "ka"] true (fun _ => none)
      fun _ => none).1.map (fun r => r.1.map (·.plainText)) = some [some (lit "text")] := by decide +kernel
  rw [hload] at hread
  have htext : m.plainText = some (lit "text") := (List.cons.inj (Option.some.inj hread)).1
  rw [halike.plainText, hlive] at htext
  cases htext

end Kryptolog.Client
