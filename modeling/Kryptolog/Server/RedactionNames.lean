import Mathlib.Data.String.Basic
import Kryptolog.Server.EraseProgress

/-! # The keys of a redaction request

A round of an erase names the rows that it redacts by texts: a kind, a colon and a number. The
request refuses to carry one text twice, and the look-up takes any text whose number `int()` reads.
`names_rows_iff` says when the keys of a request name rows one to one.
-/

namespace Kryptolog.Server
set_option autoImplicit false

open Tables Json Fallible

/-! ## The look-up

The id columns are of type INTEGER. The driver binds the number of a key as such and the database
answers a number out of its range with a `DataError`, before any row is looked at. `fits` says which
numbers are in the range. -/

/-- `model.id == int(raw_id)`, as far as the number itself goes. -/
def bindId (prim : Primitives) (fits : ℕ → Bool) (key : String) : Except Fault Unit := do
  let (_, id) ← parseKey prim key
  refuseIf (!fits id) (.unhandled "DataError")

/-- One turn of the loop in `_verified_redactions`, over columns of a bounded type. -/
def verifyBound (prim : Primitives) (fits : ℕ → Bool) (db : Database) (author : User)
    (scope : Scope) (entry : String × String) : Except Fault Redaction := do
  bindId prim fits entry.1
  verifyRedaction prim db author scope entry

def verifiedBound (prim : Primitives) (fits : ℕ → Bool) (db : Database) (author : User)
    (signatures : List (String × String)) (scope : Scope) : Except Fault (List Redaction) :=
  (signatures.insertionSort (fun a b => a.1 ≤ b.1)).mapM (verifyBound prim fits db author scope)

/-- `apply_redactions`, over columns of a bounded type. -/
def applyBound (prim : Primitives) (fits : ℕ → Bool) (db : Database) (author : User)
    (signatures : List (String × String)) (scope : Scope) : Except Fault (Database × ℕ) := do
  let pending ← verifiedBound prim fits db author signatures scope
  .ok (pending.foldl setContent db, pending.length)

/-- `RedactionRefused`. -/
def Refused (e : Fault) : Prop := ∃ detail, e = redactionRefused detail

section

variable {prim : Primitives} {fits : ℕ → Bool} {db : Database} {author : User} {scope : Scope}
  {signatures : List (String × String)}

theorem verifyBound_eq_ok {entry : String × String} {r : Redaction} :
    verifyBound prim fits db author scope entry = .ok r ↔
      bindId prim fits entry.1 = .ok () ∧ verifyRedaction prim db author scope entry = .ok r := by
  simp only [verifyBound, bind_eq_ok]
  constructor
  · rintro ⟨u, hbind, hverify⟩
    exact ⟨hbind, hverify⟩
  · rintro ⟨hbind, hverify⟩
    exact ⟨(), hbind, hverify⟩

/-- Where every number that is bound fits, the bound is not felt. -/
theorem applyBound_of_fits (hfits : ∀ id, fits id = true) :
    applyBound prim fits db author signatures scope =
      applyRedactions prim db author signatures scope := by
  have hturn : verifyBound prim fits db author scope = verifyRedaction prim db author scope := by
    funext entry
    simp only [verifyBound, bindId, verifyRedaction, redactableRow]
    cases parseKey prim entry.1 with
    | error e => rfl
    | ok x => simp [refuseIf, hfits, bind, Except.bind]
  rw [applyBound, verifiedBound, hturn]
  rfl

/-! ## Reading a key -/

/-- The text after the colon. -/
def rawId (key : String) : List Char := (key.toList.dropWhile (· != ':')).drop 1

/-- The kind before it. -/
def kindOfKey (key : String) : Option Kind :=
  kindOfText (String.ofList (key.toList.takeWhile (· != ':')))

/-- Does the key pass the test of its form, `str.isdigit` included? -/
def isNumbered (prim : Primitives) (key : String) : Bool :=
  (kindOfKey key).isSome && key.toList.contains ':' && !(rawId key).isEmpty &&
    (rawId key).all fun c => (pyDigit prim c).isSome

/-- The key passes the test of its form by a digit that is no decimal. -/
def HasStray (prim : Primitives) (key : String) : Prop :=
  isNumbered prim key = true ∧ ∃ c ∈ rawId key, pyDigit prim c = some none

theorem pyInt_cases {digits : List Char} (hdigits : ∀ c ∈ digits, (pyDigit prim c).isSome = true) :
    (∃ n, pyInt prim digits = .ok n) ∧ (∀ c ∈ digits, pyDigit prim c ≠ some none) ∨
      pyInt prim digits = .error (.unhandled "ValueError") ∧
        ∃ c ∈ digits, pyDigit prim c = some none := by
  unfold pyInt
  generalize 0 = start
  induction digits generalizing start with
  | nil => exact .inl ⟨⟨start, rfl⟩, (fun _ h => by cases h)⟩
  | cons c digits ih =>
    obtain ⟨hc, hrest⟩ := List.forall_mem_cons.mp hdigits
    rw [List.foldlM_cons]
    cases hread : pyDigit prim c with
    | none => rw [hread] at hc; cases hc
    | some value =>
      cases value with
      | none => exact .inr ⟨rfl, c, List.mem_cons_self, hread⟩
      | some d =>
        rcases ih hrest (10 * start + d) with ⟨hok, hall⟩ | ⟨herror, x, hx, hstray⟩
        · exact .inl ⟨hok, List.forall_mem_cons.mpr ⟨by simp [hread], hall⟩⟩
        · exact .inr ⟨herror, x, List.mem_cons_of_mem _ hx, hstray⟩

/-- A key by what its kind was read as. -/
def parseAs (prim : Primitives) (key : String) : Option Kind → Except Fault (Kind × ℕ)
  | some kind =>
    if !key.toList.contains ':' || (rawId key).isEmpty || !(rawId key).all fun c => (pyDigit prim c).isSome then
      .error (redactionRefused s!"{key} is not a message id")
    else pyInt prim (rawId key) >>= fun n => .ok (kind, n)
  | none => .error (redactionRefused s!"{key} is not a message id")

theorem parseKey_eq (prim : Primitives) (key : String) :
    parseKey prim key = parseAs prim key (kindOfKey key) := by
  simp only [parseKey, rawId, kindOfKey, parseAs]
  rfl

/-- A key is refused for its form, or it has a stray digit, or it is read. -/
theorem parseKey_cases (prim : Primitives) (key : String) :
    (∃ e, parseKey prim key = .error e ∧ Refused e) ∧ isNumbered prim key = false ∨
      parseKey prim key = .error (.unhandled "ValueError") ∧ HasStray prim key ∨
      (∃ x, parseKey prim key = .ok x) ∧ ¬ HasStray prim key := by
  rw [parseKey_eq]
  cases hkind : kindOfKey key with
  | none => exact .inl ⟨⟨_, rfl, _, rfl⟩, by simp [isNumbered, hkind]⟩
  | some kind =>
    have hform : (!key.toList.contains ':' || (rawId key).isEmpty ||
        !(rawId key).all fun c => (pyDigit prim c).isSome) = !isNumbered prim key := by
      rw [isNumbered, hkind, Option.isSome_some, Bool.true_and, Bool.not_and, Bool.not_and,
        Bool.not_not]
    rw [parseAs, hform]
    cases hnumbered : isNumbered prim key with
    | false => exact .inl ⟨⟨_, rfl, _, rfl⟩, rfl⟩
    | true =>
      have hall : ∀ c ∈ rawId key, (pyDigit prim c).isSome = true :=
        List.all_eq_true.mp (Bool.and_eq_true_iff.mp hnumbered).2
      refine .inr ?_
      rcases pyInt_cases hall with ⟨⟨n, hn⟩, hnone⟩ | ⟨herror, c, hc, hstray⟩
      · refine .inr ⟨⟨(kind, n), by rw [hn]; rfl⟩, ?_⟩
        rintro ⟨-, c, hc, hstray⟩
        exact hnone c hc hstray
      · exact .inl ⟨by rw [herror]; rfl, hnumbered, c, hc, hstray⟩

/-! ## The look-up of one key -/

/-- The look-up of a key ends in an error that nothing catches: at a digit that is no decimal, at a
number out of range, or at a row whose text is nested too deeply to be parsed. -/
def Unanswerable (prim : Primitives) (fits : ℕ → Bool) (db : Database) (a : Address) (scope : Scope)
    (key : String) : Prop :=
  HasStray prim key ∨ ∃ kind id, parseKey prim key = .ok (kind, id) ∧
    (fits id = false ∨ ∃ row, (kind, row) ∈ ownMessages db a scope ∧ row.id = id ∧
      readable row.content = false)

theorem not_refused_unhandled (name : String) : ¬ Refused (.unhandled name) := by
  rintro ⟨detail, h⟩
  cases h

theorem payloadOf_error {d : Document} {e : Fault} (h : payloadOf d = .error e) :
    readable d = false := by
  cases d with
  | json v => cases v <;> cases h
  | notJson raw => cases h
  | tooDeep raw => rfl

theorem payloadOf_unreadable {d : Document} (h : readable d = false) :
    payloadOf d = .error (.unhandled "RecursionError") := by
  cases d with
  | json v => cases h
  | notJson raw => cases h
  | tooDeep raw => rfl

/-- A key that is read to a number and still not looked up to a row is refused, unless the row
cannot be parsed. -/
theorem redactableRow_error {a : Address} {key : String} {kind : Kind} {id : ℕ} {e : Fault}
    (hkey : parseKey prim key = .ok (kind, id))
    (h : redactableRow prim db a key scope = .error e) :
    Refused e ∨ ∃ row, (kind, row) ∈ ownMessages db a scope ∧ row.id = id ∧
      readable row.content = false := by
  rw [redactableRow, hkey, ok_bind] at h
  dsimp only at h
  split at h
  · cases h
    exact .inl ⟨_, rfl⟩
  · next row hfind =>
    obtain ⟨hmem, hp⟩ := Table.find?_mem hfind
    simp only [Bool.and_eq_true, beq_iff_eq] at hp
    split at h
    · cases h
      exact .inl ⟨_, rfl⟩
    · next hscope =>
      cases hload : payloadOf row.content with
      | error e' =>
        exact .inr ⟨row, mem_ownMessages.mpr ⟨hmem, hp.2, by simpa using hscope⟩, hp.1,
          payloadOf_error hload⟩
      | ok payload =>
        rw [hload, ok_bind] at h
        split at h
        · cases h
          exact .inl ⟨_, rfl⟩
        · split at h
          · cases h
            exact .inl ⟨_, rfl⟩
          · cases h

/-- One turn of the loop fails with a refusal, or at an unanswerable key. -/
theorem verifyBound_error {entry : String × String} {e : Fault}
    (h : verifyBound prim fits db author scope entry = .error e) :
    Refused e ∨ Unanswerable prim fits db author.address scope entry.1 := by
  obtain ⟨key, signature⟩ := entry
  rcases parseKey_cases prim key with ⟨⟨e', hparse, hrefused⟩, -⟩ | ⟨-, hstray⟩ | ⟨⟨⟨kind, id⟩, hparse⟩, -⟩
  · rw [verifyBound, bindId, hparse] at h
    cases h
    exact .inl hrefused
  · exact .inr (.inl hstray)
  · cases hfits : fits id with
    | false => exact .inr (.inr ⟨kind, id, hparse, .inl hfits⟩)
    | true =>
      have hbind : bindId prim fits key = .ok () := by
        rw [bindId, hparse]
        simp [refuseIf, hfits, bind, Except.bind]
      rw [verifyBound, hbind, ok_bind, verifyRedaction] at h
      dsimp only at h
      cases hrow : redactableRow prim db author.address key scope with
      | error e' =>
        rw [hrow] at h
        obtain rfl : e' = e := Except.error.inj h
        exact (redactableRow_error hparse hrow).imp_right fun hdeep => .inr ⟨kind, id, hparse, .inr hdeep⟩
      | ok c =>
        rw [hrow, ok_bind] at h
        refine .inl ?_
        cases hgroup : declaresOtherGroup c.1 c.2.1 c.2.2 with
        | true =>
          rw [hgroup] at h
          exact ⟨_, (Except.error.inj h).symm⟩
        | false =>
          rw [hgroup] at h
          simp only [refuseIf, Bool.false_eq_true, if_false, ok_bind] at h
          split at h
          · exact ⟨_, (Except.error.inj h).symm⟩
          · split at h
            · cases h
            · exact ⟨_, (Except.error.inj h).symm⟩

/-- And at an unanswerable key it does fail, with something that is no refusal. -/
theorem verifyBound_unanswerable {entry : String × String}
    (h : Unanswerable prim fits db author.address scope entry.1) :
    ∃ name, verifyBound prim fits db author scope entry = .error (.unhandled name) := by
  obtain ⟨key, signature⟩ := entry
  rcases h with hstray | ⟨kind, id, hparse, hrest⟩
  · rcases parseKey_cases prim key with ⟨-, hform⟩ | ⟨herror, -⟩ | ⟨-, hnone⟩
    · rw [hstray.1] at hform
      cases hform
    · exact ⟨_, by rw [verifyBound, bindId, herror]; rfl⟩
    · exact absurd hstray hnone
  · cases hfits : fits id with
    | false => exact ⟨_, by rw [verifyBound, bindId, hparse, ok_bind]; simp [refuseIf, hfits]; rfl⟩
    | true =>
      obtain ⟨row, hown, rfl, hdeep⟩ := hrest.resolve_left (by simp [hfits])
      have hbind : bindId prim fits key = .ok () := by
        rw [bindId, hparse]
        simp [refuseIf, hfits, bind, Except.bind]
      have hrow : redactableRow prim db author.address key scope =
          .error (.unhandled "RecursionError") := by
        have hscope := (mem_ownMessages.mp hown).2.2
        have hfind := find_own hown
        simp only [redactableRow, hparse, ok_bind, hfind, hscope, payloadOf_unreadable hdeep]
        rfl
      exact ⟨_, by rw [verifyBound, hbind, ok_bind, verifyRedaction]; dsimp only; rw [hrow]; rfl⟩

/-! ## Which keys are looked up -/

/-- Verification comes to a key: all that sort before it are verified. -/
def Reached (prim : Primitives) (fits : ℕ → Bool) (db : Database) (author : User) (scope : Scope)
    (signatures : List (String × String)) (entry : String × String) : Prop :=
  ∀ other ∈ signatures, other.1 < entry.1 → ∃ r, verifyBound prim fits db author scope other = .ok r

/-- In a sorted list without repetitions the items before one are those that are smaller. -/
theorem mem_before {xs pre post : List (String × String)} {x y : String × String}
    (hsplit : xs.insertionSort (fun a b => a.1 ≤ b.1) = pre ++ x :: post)
    (hkeys : (xs.map (·.1)).Nodup) : y ∈ pre ↔ y ∈ xs ∧ y.1 < x.1 := by
  have hsorted : (pre ++ x :: post).Pairwise fun a b => a.1 ≤ b.1 := by
    rw [← hsplit]
    exact List.pairwise_insertionSort (fun a b : String × String => a.1 ≤ b.1) xs
  have hnodup : ((pre ++ x :: post).map (·.1)).Nodup := by
    rw [← hsplit]
    exact ((List.perm_insertionSort (fun a b : String × String => a.1 ≤ b.1) xs).map
      Prod.fst).nodup_iff.mpr hkeys
  have hmem : ∀ z, z ∈ xs ↔ z ∈ pre ++ x :: post := fun z => by
    rw [← hsplit, List.mem_insertionSort]
  obtain ⟨-, hpost, hbefore⟩ := List.pairwise_append.mp hsorted
  rw [hmem, List.mem_append, List.mem_cons]
  constructor
  · intro hy
    refine ⟨.inl hy, lt_of_le_of_ne (hbefore y hy x List.mem_cons_self) fun heq => ?_⟩
    rw [List.map_append, List.nodup_append] at hnodup
    exact hnodup.2.2 y.1 (List.mem_map_of_mem hy) x.1 (List.mem_map_of_mem List.mem_cons_self) heq
  · rintro ⟨hy | rfl | hy, hlt⟩
    · exact hy
    · exact absurd hlt (lt_irrefl _)
    · exact absurd hlt (not_lt_of_ge ((List.pairwise_cons.mp hpost).1 y hy))

/-- A request fails with the failure of the first key that is reached and fails. -/
theorem verifiedBound_eq_error (hkeys : (signatures.map (·.1)).Nodup) {e : Fault} :
    verifiedBound prim fits db author signatures scope = .error e ↔
      ∃ entry ∈ signatures, Reached prim fits db author scope signatures entry ∧
        verifyBound prim fits db author scope entry = .error e := by
  rw [verifiedBound, mapM_eq_error]
  constructor
  · rintro ⟨pre, entry, post, hsplit, hpre, herror⟩
    have hentry : entry ∈ signatures := by
      rw [← List.mem_insertionSort (fun a b : String × String => a.1 ≤ b.1), hsplit]
      exact List.mem_append_right _ List.mem_cons_self
    exact ⟨entry, hentry, fun other hother hlt => hpre other ((mem_before hsplit hkeys).mpr ⟨hother, hlt⟩),
      herror⟩
  · rintro ⟨entry, hentry, hreached, herror⟩
    obtain ⟨pre, post, hsplit⟩ := List.append_of_mem
      ((List.mem_insertionSort (fun a b : String × String => a.1 ≤ b.1)).mpr hentry)
    refine ⟨pre, entry, post, hsplit, fun other hother => ?_, herror⟩
    obtain ⟨hmem, hlt⟩ := (mem_before hsplit hkeys).mp hother
    exact hreached other hmem hlt

/-- The redactions of a request that takes place: one for each of its keys. -/
theorem mem_verifiedBound {pending : List Redaction}
    (h : verifiedBound prim fits db author signatures scope = .ok pending) {r : Redaction} :
    r ∈ pending ↔ ∃ entry ∈ signatures, verifyBound prim fits db author scope entry = .ok r := by
  rw [mem_mapM h]
  simp only [List.mem_insertionSort]

theorem verifyBound_of_verified {pending : List Redaction}
    (h : verifiedBound prim fits db author signatures scope = .ok pending) {entry : String × String}
    (hentry : entry ∈ signatures) : ∃ r, verifyBound prim fits db author scope entry = .ok r :=
  mapM_isOk.mp ⟨pending, h⟩ entry ((List.mem_insertionSort _).mpr hentry)

/-! ## One row for each key -/

/-- A round that took place redacted as many rows as it has keys: each key is read to another row of
the author in the scope, its redaction is verified, and the row holds it now. -/
structure RedactsEach (prim : Primitives) (db : Database) (author : User) (scope : Scope)
    (signatures : List (String × String)) (db' : Database) (n : ℕ) : Prop where
  count : n = signatures.length
  apart : (signatures.map fun entry => parseKey prim entry.1).Nodup
  row : ∀ entry ∈ signatures, ∃ r row p, parseKey prim entry.1 = .ok (r.1, r.2.1) ∧
    Verified prim db author scope r row p entry.2 ∧
    ∃ row' ∈ db'.store r.1, row'.id = r.2.1 ∧ row'.content = r.2.2

/-- A round redacts a row for each of its keys, or it is refused. -/
def NamesRows (prim : Primitives) (db : Database) (author : User) (scope : Scope)
    (signatures : List (String × String)) : Except Fault (Database × ℕ) → Prop
  | .ok (db', n) => RedactsEach prim db author scope signatures db' n
  | .error e => Refused e

/-- No key that verification comes to is unanswerable, and where all are verified no two spell the
same number of the same kind. -/
structure SpelledApart (prim : Primitives) (fits : ℕ → Bool) (db : Database) (author : User)
    (scope : Scope) (signatures : List (String × String)) : Prop where
  answered : ∀ entry ∈ signatures, Reached prim fits db author scope signatures entry →
    ¬ Unanswerable prim fits db author.address scope entry.1
  apart : (∀ entry ∈ signatures, ∃ r, verifyBound prim fits db author scope entry = .ok r) →
    (signatures.map fun entry => parseKey prim entry.1).Nodup

/-- A verified redaction is of the row that its key is read to. -/
theorem verifyRedaction_key {entry : String × String} {r : Redaction}
    (h : verifyRedaction prim db author scope entry = .ok r) :
    parseKey prim entry.1 = .ok (r.1, r.2.1) := by
  simp only [verifyRedaction, redactableRow, bind_eq_ok] at h
  obtain ⟨⟨kind, row, p⟩, ⟨⟨k, id⟩, hparse, hrow⟩, _, -, h⟩ := h
  split at hrow
  · cases hrow
  · next row' hfind =>
    obtain ⟨-, hp⟩ := Table.find?_mem hfind
    simp only [Bool.and_eq_true, beq_iff_eq] at hp
    split at hrow
    · cases hrow
    · obtain ⟨payload, -, hrow⟩ := bind_eq_ok.mp hrow
      split at hrow
      · cases hrow
      · split at hrow
        · cases hrow
        · cases hrow
          split at h
          · cases h
          · split at h
            · cases h
              rw [hparse, hp.1]
            · cases h

/-- A round in which all keys are verified and no two are of one row redacts a row for each. -/
theorem redactsEach_of_apart {pending : List Redaction}
    (h : verifiedBound prim fits db author signatures scope = .ok pending)
    (hapart : (signatures.map fun entry => parseKey prim entry.1).Nodup) :
    RedactsEach prim db author scope signatures (pending.foldl setContent db) pending.length := by
  refine ⟨?_, hapart, fun entry hentry => ?_⟩
  · rw [← (mapM_eq_ok.mp h).length_eq, List.length_insertionSort]
  · obtain ⟨r, hr⟩ := verifyBound_of_verified h hentry
    have hverify := (verifyBound_eq_ok.mp hr).2
    obtain ⟨row, p, hver⟩ := verifyRedaction_ok hverify
    refine ⟨r, row, p, verifyRedaction_key hverify, hver, ?_⟩
    have hstored : rewrite pending r.1 row ∈ (pending.foldl setContent db).store r.1 :=
      mem_setContents.mpr ⟨row, (mem_ownMessages.mp hver.own).1, rfl⟩
    refine ⟨_, hstored, (rewrite_same pending r.1 row).1.trans hver.id, ?_⟩
    rcases rewrite_content pending r.1 row with ⟨hnone, -⟩ | ⟨r', hr', hkind, hid, hcontent⟩
    · exact absurd ⟨rfl, hver.id⟩ (hnone r ((mem_verifiedBound h).mpr ⟨entry, hentry, hr⟩))
    · -- the redaction that the row holds is of a key that is read to the same row
      obtain ⟨other, hother, hr''⟩ := (mem_verifiedBound h).mp hr'
      have hsame : parseKey prim other.1 = parseKey prim entry.1 := by
        rw [verifyRedaction_key (verifyBound_eq_ok.mp hr'').2, verifyRedaction_key hverify, hkind,
          ← hid, hver.id]
      obtain rfl := List.inj_on_of_nodup_map hapart hother hentry hsame
      rw [hr] at hr''
      rw [hcontent, Except.ok.inj hr'']

/-- The keys of a request name rows one to one, or the request is refused, exactly where they are
spelled apart. -/
theorem names_rows_iff (hkeys : (signatures.map (·.1)).Nodup) :
    NamesRows prim db author scope signatures (applyBound prim fits db author signatures scope) ↔
      SpelledApart prim fits db author scope signatures := by
  rw [applyBound]
  cases h : verifiedBound prim fits db author signatures scope with
  | error e =>
    obtain ⟨entry, hentry, hreached, herror⟩ := (verifiedBound_eq_error hkeys).mp h
    constructor
    · intro hrefused
      refine ⟨fun other hother hreached' hun => ?_, fun hall => ?_⟩
      · obtain ⟨name, hname⟩ := verifyBound_unanswerable hun
        have h' := (verifiedBound_eq_error hkeys).mpr ⟨other, hother, hreached', hname⟩
        rw [h] at h'
        obtain rfl : e = .unhandled name := Except.error.inj h'
        exact not_refused_unhandled name hrefused
      · obtain ⟨r, hr⟩ := hall entry hentry
        rw [hr] at herror
        cases herror
    · intro hspelled
      exact (verifyBound_error herror).resolve_right (hspelled.answered entry hentry hreached)
  | ok pending =>
    constructor
    · intro heach
      refine ⟨fun entry hentry _ hun => ?_, fun _ => heach.apart⟩
      obtain ⟨r, hr⟩ := verifyBound_of_verified h hentry
      obtain ⟨name, hname⟩ := verifyBound_unanswerable hun
      rw [hr] at hname
      cases hname
    · intro hspelled
      exact redactsEach_of_apart h (hspelled.apart fun entry hentry => verifyBound_of_verified h hentry)

/-- Keys as the manifest lists them are spelled apart, where ids are in range and rows are read. -/
theorem spelledApart_of_listed (hkeys : (signatures.map (·.1)).Nodup)
    (hlisted : ∀ entry ∈ signatures, ∃ kind id, entry.1 = redactionKey kind id ∧ fits id = true)
    (hread : AllReadable db author.address scope) :
    SpelledApart prim fits db author scope signatures := by
  refine ⟨fun entry hentry _ => ?_, fun _ => ?_⟩
  · obtain ⟨kind, id, hkey, hfits⟩ := hlisted entry hentry
    rintro (hstray | ⟨kind', id', hparse, hrest⟩)
    · rcases parseKey_cases prim entry.1 with ⟨⟨_, herror, -⟩, -⟩ | ⟨herror, -⟩ | ⟨-, hnone⟩
      · rw [hkey, parseKey_redactionKey] at herror
        cases herror
      · rw [hkey, parseKey_redactionKey] at herror
        cases herror
      · exact hnone hstray
    · rw [hkey, parseKey_redactionKey] at hparse
      cases hparse
      rcases hrest with hout | ⟨row, hown, -, hdeep⟩
      · rw [hfits] at hout
        cases hout
      · rw [hread _ hown] at hdeep
        cases hdeep
  · refine List.Nodup.map_on (fun x hx y hy hxy => ?_) (List.Nodup.of_map _ hkeys)
    obtain ⟨kind, id, hkey, -⟩ := hlisted x hx
    obtain ⟨kind', id', hkey', -⟩ := hlisted y hy
    rw [hkey, hkey', parseKey_redactionKey, parseKey_redactionKey] at hxy
    cases hxy
    exact List.inj_on_of_nodup_map hkeys hx hy (hkey.trans hkey'.symm)

end

/-! ## Two spellings of one number -/

/-- The range of INTEGER, as far as a text of digits can reach it. -/
def inInteger (id : ℕ) : Bool := decide (id < 2147483648)

def sampleNumbered : Message := { sampleMessage 0 with id := 1 }

/-- The writer has sent one message, and it has the first number of the sequence. -/
def sampleSentFirst : Database where
  __ := sampleSent 0
  messages := ⟨⟨[sampleNumbered], List.nodup_singleton _⟩, 2, by
    intro row hrow
    rw [List.mem_singleton.mp hrow]
    exact Nat.one_lt_two⟩

theorem deliverable_sampleSentFirst : Deliverable sampleSentFirst sampleWriter.address where
  sender := (deliverable_sampleSent 0).sender
  recipient := fun row hrow _ => by
    obtain rfl : row = sampleNumbered := List.mem_singleton.mp hrow
    exact (deliverable_sampleSent 0).recipient (sampleMessage 0) (List.mem_singleton_self _) rfl
  channel := fun _ h => by cases h

theorem names_rows_sample : ([("dm:1", "s"), ("group:2", "s")].map (·.1)).Nodup ∧
    (NamesRows samplePrimitives sampleSentFirst sampleWriter none [("dm:1", "s"), ("group:2", "s")]
        (applyBound samplePrimitives inInteger sampleSentFirst sampleWriter
          [("dm:1", "s"), ("group:2", "s")] none) ↔
      SpelledApart samplePrimitives inInteger sampleSentFirst sampleWriter none
        [("dm:1", "s"), ("group:2", "s")]) :=
  ⟨by decide, names_rows_iff (by decide)⟩

/-- One message named by two texts: both are accepted, and one row is redacted for two keys. -/
theorem not_names_rows : ¬ ∀ (prim : Primitives) (fits : ℕ → Bool) (db : Database) (author : User)
    (scope : Scope) (signatures : List (String × String)), (signatures.map (·.1)).Nodup →
      NamesRows prim db author scope signatures (applyBound prim fits db author signatures scope) := by
  intro h
  have hown : (Kind.dm, sampleNumbered) ∈ ownMessages sampleSentFirst sampleWriter.address none :=
    mem_ownMessages.mpr ⟨List.mem_singleton_self _, rfl, rfl⟩
  have hred : Redactable .dm sampleNumbered (samplePayload 0) := by
    have hts : (samplePayload 0).get "ts" = some (.int 0) := rfl
    have hseq : (samplePayload 0).get "seq" = some (.int 0) := rfl
    refine ⟨fun z hz => ?_, fun z hz => ?_, (fun _ h => by cases h)⟩
    · rw [hts] at hz
      cases hz
      decide
    · rw [hseq] at hz
      cases hz
      decide
  have hlisted : isListed (samplePayload 0) = true := by decide
  obtain ⟨body, hbody⟩ := redactionBody_ok samplePrimitives deliverable_sampleSentFirst hown hlisted hred
  obtain ⟨signature, hver⟩ := sampleWriter_signs body
  have hone : ∀ key, parseKey samplePrimitives key = .ok (.dm, 1) → ∃ r,
      verifyBound samplePrimitives inInteger sampleSentFirst sampleWriter none (key, signature) = .ok r := by
    intro key hkey
    refine ⟨_, verifyBound_eq_ok.mpr ⟨?_, verifyRedaction_row (c := (.dm, sampleNumbered)) hkey hown
      rfl rfl hlisted hred hbody hver⟩⟩
    rw [bindId, hkey]
    rfl
  have hparse : parseKey samplePrimitives "dm:1" = .ok (.dm, 1) := by decide
  have hparse' : parseKey samplePrimitives "dm:01" = .ok (.dm, 1) := by decide
  have hall : ∀ entry ∈ [("dm:1", signature), ("dm:01", signature)], ∃ r,
      verifyBound samplePrimitives inInteger sampleSentFirst sampleWriter none entry = .ok r := by
    intro entry hentry
    simp only [List.mem_cons, List.not_mem_nil, or_false] at hentry
    rcases hentry with rfl | rfl
    · exact hone _ hparse
    · exact hone _ hparse'
  obtain ⟨pending, hpending⟩ := (mapM_isOk (f := verifyBound samplePrimitives inInteger sampleSentFirst
    sampleWriter none)).mpr fun entry hentry => hall entry ((List.mem_insertionSort
      (fun a b : String × String => a.1 ≤ b.1)).mp hentry)
  have happly : applyBound samplePrimitives inInteger sampleSentFirst sampleWriter
      [("dm:1", signature), ("dm:01", signature)] none =
        .ok (pending.foldl setContent sampleSentFirst, pending.length) :=
    bind_eq_ok.mpr ⟨pending, hpending, rfl⟩
  have heach := h samplePrimitives inInteger sampleSentFirst sampleWriter none
    [("dm:1", signature), ("dm:01", signature)] (by simp)
  rw [happly] at heach
  have hapart := heach.apart
  simp [hparse, hparse'] at hapart

end Kryptolog.Server
