import Kryptolog.Server.AccountDeletion
import Kryptolog.Server.Moves

/-! # The rounds of an erase

An erase of an account or of a conversation is a sequence of rounds, each a request of its own.
This module says once what a round does to the messages: which rows it demands (`leftToRedact`),
what a verified redaction is (`Verified`), which rows a completing round deletes, and what an
accepted and a refused round leave (`eraseRound_ok`, `eraseRound_error`).
-/

namespace Kryptolog.Server
set_option autoImplicit false

open Tables Json Fallible

/-! ## Reading rows -/

/-- The payload of a text that is a JSON object. -/
def payloadIn : Document → Option Value
  | .json (.obj fields) => some (.obj fields)
  | _ => none

/-- The parser gets through the text, or refuses it, without running out of stack. -/
def readable : Document → Bool
  | .tooDeep _ => false
  | _ => true

theorem payloadOf_eq_ok {d : Document} {p : Option Value} :
    payloadOf d = .ok p ↔ readable d = true ∧ p = payloadIn d := by
  cases d with
  | json v => cases v <;> simp [payloadOf, payloadIn, readable, eq_comm]
  | notJson raw => simp [payloadOf, Document.loads, payloadIn, readable, eq_comm]
  | tooDeep raw => simp [payloadOf, Document.loads, readable]

/-- A row that the erase asks its author to redact: a carrier that looks signable. -/
def isListed (p : Value) : Bool := isCarrier p && isSignable p

/-- A row that the erase leaves with its content and reports: it does not parse, or it is a
carrier that nobody can be asked to sign. -/
def isKept (d : Document) : Bool :=
  match payloadIn d with
  | none => true
  | some p => isCarrier p && !isSignable p

/-- The entry of a row in a walk that selects by `test`. -/
def selectedCarrier (test : Value → Bool) (c : Kind × Message) : Option Carrier :=
  (payloadIn c.2.content).bind fun p => if test p then some (c.1, c.2, p) else none

theorem selectedCarrier_eq_some {test : Value → Bool} {c : Kind × Message} {x : Carrier} :
    selectedCarrier test c = some x ↔
      ∃ p, payloadIn c.2.content = some p ∧ test p = true ∧ x = (c.1, c.2, p) := by
  simp only [selectedCarrier, Option.bind_eq_some_iff]
  refine exists_congr fun p => and_congr_right fun _ => ?_
  split
  · next h => simp [h, eq_comm]
  · next h => simp [h]

/-- A walk over rows gets through where each row can be read. -/
theorem selectRows_cons {test : Value → Bool} {c : Kind × Message} {rows : List (Kind × Message)}
    {out : List Carrier} :
    selectRows test (c :: rows) = .ok out ↔
      readable c.2.content = true ∧
        ∃ rest, selectRows test rows = .ok rest ∧ out = (selectedCarrier test c).toList ++ rest := by
  obtain ⟨kind, row⟩ := c
  simp only [selectRows, bind_eq_ok, payloadOf_eq_ok, selectedCarrier]
  constructor
  · rintro ⟨p, ⟨hread, rfl⟩, rest, hrest, h⟩
    refine ⟨hread, rest, hrest, ?_⟩
    cases hp : payloadIn row.content with
    | none =>
      rw [hp] at h
      exact (Except.ok.inj h).symm
    | some p =>
      rw [hp] at h
      rw [← Except.ok.inj h, Option.bind_some]
      split <;> rfl
  · rintro ⟨hread, rest, hrest, rfl⟩
    refine ⟨_, ⟨hread, rfl⟩, rest, hrest, ?_⟩
    cases payloadIn row.content with
    | none => rfl
    | some p =>
      rw [Option.bind_some]
      dsimp only
      split <;> rfl

theorem selectRows_eq_ok {test : Value → Bool} {rows : List (Kind × Message)} {out : List Carrier} :
    selectRows test rows = .ok out ↔
      (∀ c ∈ rows, readable c.2.content = true) ∧ out = rows.filterMap (selectedCarrier test) := by
  induction rows generalizing out with
  | nil =>
    constructor
    · intro h
      cases h
      exact ⟨(fun _ h => by cases h), rfl⟩
    · rintro ⟨-, rfl⟩
      rfl
  | cons c rows ih =>
    have hcons : (c :: rows).filterMap (selectedCarrier test) =
        (selectedCarrier test c).toList ++ rows.filterMap (selectedCarrier test) := by
      rw [List.filterMap_cons]
      cases selectedCarrier test c <;> rfl
    rw [selectRows_cons, hcons, List.forall_mem_cons, and_assoc]
    refine and_congr_right fun _ => ?_
    simp only [ih]
    constructor
    · rintro ⟨rest, ⟨hrows, rfl⟩, h⟩
      exact ⟨hrows, h⟩
    · rintro ⟨hrows, h⟩
      exact ⟨_, ⟨hrows, rfl⟩, h⟩

/-! ## The author's rows -/

section rows

variable {db db' : Database} {a : Address} {scope : Scope}

theorem mem_ownMessages {kind : Kind} {row : Message} :
    (kind, row) ∈ ownMessages db a scope ↔
      row ∈ db.store kind ∧ row.senderAddress = a ∧ inScope kind row scope = true := by
  simp only [ownMessages, List.mem_flatMap, List.mem_map, Table.mem_where', Serial.mem_toTable,
    Bool.and_eq_true, beq_iff_eq, Prod.mk.injEq]
  constructor
  · rintro ⟨k, -, r, hr, rfl, rfl⟩
    exact hr
  · intro h
    refine ⟨kind, ?_, row, h, rfl, rfl⟩
    cases scope with
    | none => cases kind <;> simp [Scope.kinds]
    | some s =>
      obtain ⟨k, key⟩ := s
      have hk : k = kind := by simpa using (Bool.and_eq_true_iff.mp h.2.2).1
      simp [Scope.kinds, hk]

theorem ownMessages_congr (h : ∀ kind, db'.store kind = db.store kind) :
    ownMessages db' a scope = ownMessages db a scope := by
  simp only [ownMessages, h]

/-- Every row of the author in the scope can be read. -/
def AllReadable (db : Database) (a : Address) (scope : Scope) : Prop :=
  ∀ c ∈ ownMessages db a scope, readable c.2.content = true

/-- How many rows an erase still asks its author to redact. -/
def leftToRedact (db : Database) (a : Address) (scope : Scope) : ℕ :=
  (ownMessages db a scope).countP fun c => (payloadIn c.2.content).any isListed

/-- How many rows an erase would leave and report. -/
def countKept (db : Database) (a : Address) (scope : Scope) : ℕ :=
  (ownMessages db a scope).countP fun c => isKept c.2.content

theorem redactionKeys_eq_ok {keys : List String} :
    redactionKeys db a scope = .ok keys ↔ AllReadable db a scope ∧
      keys = ((ownMessages db a scope).filterMap (selectedCarrier isListed)).map
        fun c => redactionKey c.1 c.2.1.id := by
  simp only [redactionKeys, envelopeCarriers, bind_eq_ok, selectRows_eq_ok]
  have hfilter : ((ownMessages db a scope).filterMap (selectedCarrier isCarrier)).filter
      (fun c => isSignable c.2.2) = (ownMessages db a scope).filterMap (selectedCarrier isListed) := by
    rw [List.filter_filterMap]
    refine List.filterMap_congr fun c _ => ?_
    cases hp : payloadIn c.2.content with
    | none => simp [selectedCarrier, hp]
    | some p => by_cases hc : isCarrier p = true <;> simp [selectedCarrier, hp, hc, isListed, Option.filter]
  constructor
  · rintro ⟨carriers, ⟨hread, rfl⟩, h⟩
    cases h
    exact ⟨hread, by rw [hfilter]⟩
  · rintro ⟨hread, rfl⟩
    exact ⟨_, ⟨hread, rfl⟩, by rw [hfilter]⟩

theorem length_selectedCarrier (test : Value → Bool) (rows : List (Kind × Message)) :
    (rows.filterMap (selectedCarrier test)).length =
      rows.countP fun c => (payloadIn c.2.content).any test := by
  rw [List.length_filterMap_eq_countP]
  refine List.countP_congr fun c _ => ?_
  cases hp : payloadIn c.2.content with
  | none => simp [selectedCarrier, hp]
  | some p => by_cases ht : test p = true <;> simp [selectedCarrier, hp, ht]

theorem length_redactionKeys {keys : List String} (h : redactionKeys db a scope = .ok keys) :
    AllReadable db a scope ∧ keys.length = leftToRedact db a scope := by
  obtain ⟨hread, rfl⟩ := redactionKeys_eq_ok.mp h
  exact ⟨hread, by rw [List.length_map, length_selectedCarrier]; rfl⟩

/-- The count of `kept_messages` is the number of the rows left with their content. -/
theorem keptMessages_eq_ok {kept : ℕ} :
    keptMessages db a scope = .ok kept ↔ AllReadable db a scope ∧ kept = countKept db a scope := by
  simp only [keptMessages, bind_eq_ok, selectRows_eq_ok]
  have hcount : (ownMessages db a scope).length -
      ((ownMessages db a scope).filterMap (selectedCarrier fun _ => true)).length +
      (((ownMessages db a scope).filterMap (selectedCarrier fun _ => true)).filter
        fun c => isCarrier c.2.2 && !isSignable c.2.2).length = countKept db a scope := by
    unfold countKept
    induction ownMessages db a scope with
    | nil => rfl
    | cons c rows ih =>
      have hle : (rows.filterMap (selectedCarrier fun _ => true)).length ≤ rows.length :=
        List.length_filterMap_le _ _
      rw [List.countP_cons, List.length_cons]
      cases hp : payloadIn c.2.content with
      | none =>
        have hsel : selectedCarrier (fun _ => true) c = none := by simp [selectedCarrier, hp]
        have hkept : isKept c.2.content = true := by simp [isKept, hp]
        rw [List.filterMap_cons_none hsel, if_pos hkept]
        omega
      | some p =>
        have hsel : selectedCarrier (fun _ => true) c = some (c.1, c.2, p) := by simp [selectedCarrier, hp]
        have hkept : isKept c.2.content = (isCarrier p && !isSignable p) := by simp [isKept, hp]
        rw [List.filterMap_cons_some hsel, List.length_cons, List.filter_cons, hkept]
        split
        · rw [List.length_cons]
          omega
        · omega
  constructor
  · rintro ⟨parsed, ⟨hread, rfl⟩, h⟩
    cases h
    exact ⟨hread, hcount⟩
  · rintro ⟨hread, rfl⟩
    exact ⟨_, ⟨hread, rfl⟩, congrArg _ hcount⟩

end rows

/-! ## Redacting -/

/-- A row after the redactions of a round. -/
def rewrite (pending : List Redaction) (kind : Kind) (row : Message) : Message :=
  pending.foldl (fun row r =>
    if r.1 = kind ∧ row.id = r.2.1 then { row with content := r.2.2 } else row) row

theorem rewrite_cons (r : Redaction) (pending : List Redaction) (kind : Kind) (row : Message) :
    rewrite (r :: pending) kind row = rewrite pending kind
      (if r.1 = kind ∧ row.id = r.2.1 then { row with content := r.2.2 } else row) := rfl

/-- Only the content of a row changes. -/
theorem rewrite_same (pending : List Redaction) (kind : Kind) (row : Message) :
    (rewrite pending kind row).id = row.id ∧
      (rewrite pending kind row).senderAddress = row.senderAddress ∧
      (rewrite pending kind row).target = row.target := by
  induction pending generalizing row with
  | nil => exact ⟨rfl, rfl, rfl⟩
  | cons r pending ih =>
    rw [rewrite_cons]
    obtain ⟨hid, hsender, htarget⟩ :=
      ih (if r.1 = kind ∧ row.id = r.2.1 then { row with content := r.2.2 } else row)
    rw [hid, hsender, htarget]
    split <;> exact ⟨rfl, rfl, rfl⟩

/-- A row that no redaction names stays, and another one gets the content of one that does. -/
theorem rewrite_content (pending : List Redaction) (kind : Kind) (row : Message) :
    ((∀ r ∈ pending, ¬ (r.1 = kind ∧ row.id = r.2.1)) ∧ rewrite pending kind row = row) ∨
      ∃ r ∈ pending, r.1 = kind ∧ row.id = r.2.1 ∧ (rewrite pending kind row).content = r.2.2 := by
  induction pending generalizing row with
  | nil => exact .inl ⟨(fun _ h => by cases h), rfl⟩
  | cons r pending ih =>
    rw [rewrite_cons]
    by_cases hr : r.1 = kind ∧ row.id = r.2.1
    · rw [if_pos hr]
      rcases ih { row with content := r.2.2 } with ⟨-, heq⟩ | ⟨r', hr', hk, hid, hc⟩
      · exact .inr ⟨r, List.mem_cons_self, hr.1, hr.2, by rw [heq]⟩
      · exact .inr ⟨r', List.mem_cons_of_mem _ hr', hk, hid, hc⟩
    · rw [if_neg hr]
      rcases ih row with ⟨hnone, heq⟩ | ⟨r', hr', hk, hid, hc⟩
      · exact .inl ⟨List.forall_mem_cons.mpr ⟨hr, hnone⟩, heq⟩
      · exact .inr ⟨r', List.mem_cons_of_mem _ hr', hk, hid, hc⟩

theorem store_setContent (db : Database) (r : Redaction) (kind : Kind) :
    ((setContent db r).store kind).rows = (db.store kind).rows.map fun row =>
      if r.1 = kind ∧ row.id = r.2.1 then { row with content := r.2.2 } else row := by
  obtain ⟨k, id, content⟩ := r
  by_cases hk : k = kind
  · subst hk
    have hstore : ((setContent db (k, id, content)).store k).rows =
        ((db.store k).update (·.id == id) (fun row => { row with content := content })
          (fun _ => rfl)).rows := by
      cases k <;> rfl
    rw [hstore]
    refine List.map_congr_left fun row _ => ?_
    simp
  · have hstore : (setContent db (k, id, content)).store kind = db.store kind := by
      cases k <;> cases kind <;> first | rfl | exact absurd rfl hk
    rw [hstore]
    exact ((List.map_congr_left fun row _ => if_neg fun h => hk h.1).trans (List.map_id _)).symm

theorem store_setContents (pending : List Redaction) (db : Database) (kind : Kind) :
    ((pending.foldl setContent db).store kind).rows =
      (db.store kind).rows.map (rewrite pending kind) := by
  induction pending generalizing db with
  | nil => exact (List.map_id _).symm
  | cons r pending ih =>
    rw [List.foldl_cons, ih, store_setContent, List.map_map]
    rfl

theorem mem_setContents {pending : List Redaction} {db : Database} {kind : Kind} {row : Message} :
    row ∈ (pending.foldl setContent db).store kind ↔
      ∃ row₀ ∈ db.store kind, rewrite pending kind row₀ = row := by
  have hmem : row ∈ ((pending.foldl setContent db).store kind).rows ↔
      ∃ row₀ ∈ (db.store kind).rows, rewrite pending kind row₀ = row := by
    rw [store_setContents, List.mem_map]
  exact hmem

theorem inScope_rewrite {pending : List Redaction} {kind : Kind} {row : Message} {scope : Scope} :
    inScope kind (rewrite pending kind row) scope = inScope kind row scope := by
  cases scope with
  | none => rfl
  | some s => simp only [inScope, (rewrite_same pending kind row).2.2]

/-- The author's rows after redactions are the rows there were, rewritten. -/
theorem ownMessages_setContents (pending : List Redaction) (db : Database) (a : Address)
    (scope : Scope) :
    ownMessages (pending.foldl setContent db) a scope =
      (ownMessages db a scope).map fun c => (c.1, rewrite pending c.1 c.2) := by
  simp only [ownMessages, Table.where', store_setContents, List.map_flatMap]
  refine List.flatMap_congr fun kind _ => ?_
  rw [List.filter_map, List.map_map, List.map_map]
  have htest : ((fun row : Message => row.senderAddress == a && inScope kind row scope) ∘
      rewrite pending kind) = fun row => row.senderAddress == a && inScope kind row scope := by
    funext row
    simp only [Function.comp_apply, inScope_rewrite, (rewrite_same pending kind row).2.1]
  rw [htest]
  rfl

/-- What a signed body can say of a row: positions below `2^53`, and no group but its own. -/
structure Redactable (kind : Kind) (row : Message) (p : Value) : Prop where
  ts : ∀ z, p.get "ts" = some (.int z) → z < 2 ^ 53
  seq : ∀ z, p.get "seq" = some (.int z) → z < 2 ^ 53
  gid : kind = .group → present (p.get "gid") = true → p.get "gid" = some (.str (.uni row.target))

/-- A redaction of the author's row `row`, whose payload is `p`, under a signature that verifies. -/
structure Verified (prim : Primitives) (db : Database) (author : User) (scope : Scope)
    (r : Redaction) (row : Message) (p : Value) (signature : String) : Prop where
  own : (r.1, row) ∈ ownMessages db author.address scope
  id : row.id = r.2.1
  payload : payloadIn row.content = some p
  listed : isListed p = true
  redactable : Redactable r.1 row p
  genuine : ∃ body, redactionBody prim author.address (r.1, row, p) = .ok body ∧
    prim.verifyIdentitySignature author.identityPublicKey body signature = true
  content : r.2.2 = redactedContent r.1 p signature (convAndGid r.1 row).2

theorem declaresOtherGroup_eq_false {kind : Kind} {row : Message} {p : Value} :
    declaresOtherGroup kind row p = false ↔ (kind = .group → present (p.get "gid") = true →
      p.get "gid" = some (.str (.uni row.target))) := by
  cases kind with
  | dm => simp [declaresOtherGroup]
  | group =>
    cases hg : p.get "gid" with
    | none => simp [declaresOtherGroup, hg, present]
    | some v =>
      have hiff : (v.eqStr row.target = true) ↔ v = .str (.uni row.target) := Value.eqStr_iff
      by_cases hv : v = .str (.uni row.target)
      · subst hv
        simp [declaresOtherGroup, hg, hiff.mpr rfl]
      · have hne : v.eqStr row.target = false := by
          simpa using fun h => hv (hiff.mp h)
        simp [declaresOtherGroup, hg, hne, hv]

/-- A body is built over positions that it can say. -/
theorem redactionBody_positions {prim : Primitives} {a : Address} {kind : Kind} {row : Message}
    {p : Value} {body : String} (h : redactionBody prim a (kind, row, p) = .ok body) :
    (∀ z, p.get "ts" = some (.int z) → z < 2 ^ 53) ∧
      ∀ z, p.get "seq" = some (.int z) → z < 2 ^ 53 := by
  simp only [redactionBody, messageSigningBody, bind_eq_ok] at h
  obtain ⟨_, -, _, -, _, -, _, -, h⟩ := h
  split at h
  · next t q ht hq =>
    refine ⟨fun z hz => ?_, fun z hz => ?_⟩
    · rw [hz, signedInt] at ht
      split at ht
      · next hb => simpa using (Bool.and_eq_true_iff.mp hb).2
      · cases ht
    · rw [hz, signedInt] at hq
      split at hq
      · next hb => simpa using (Bool.and_eq_true_iff.mp hb).2
      · cases hq
  · cases h

theorem verifyRedaction_ok {prim : Primitives} {db : Database} {author : User} {scope : Scope}
    {entry : String × String} {r : Redaction}
    (h : verifyRedaction prim db author scope entry = .ok r) :
    ∃ row p, Verified prim db author scope r row p entry.2 := by
  simp only [verifyRedaction, redactableRow, bind_eq_ok] at h
  obtain ⟨⟨kind, row, p⟩, ⟨⟨k, id⟩, -, hrow⟩, _, hgroup, h⟩ := h
  split at hrow
  · cases hrow
  · next row' hfind =>
    obtain ⟨hmem, hp⟩ := Table.find?_mem hfind
    simp only [Bool.and_eq_true, beq_iff_eq] at hp
    split at hrow
    · cases hrow
    · next hscope =>
      obtain ⟨payload, hload, hrow⟩ := bind_eq_ok.mp hrow
      obtain ⟨-, rfl⟩ := payloadOf_eq_ok.mp hload
      split at hrow
      · cases hrow
      · next p' hp' =>
        split at hrow
        · cases hrow
        · next hlisted =>
          cases hrow
          split at h
          · cases h
          · next body hbody =>
            split at h
            · next hver =>
              cases h
              obtain ⟨hts, hseq⟩ := redactionBody_positions hbody
              exact ⟨row, p, {
                own := mem_ownMessages.mpr ⟨hmem, hp.2, by simpa using hscope⟩
                id := rfl
                payload := hp'
                listed := by simpa [isListed] using hlisted
                redactable := ⟨hts, hseq,
                  declaresOtherGroup_eq_false.mp (refuseIf_eq_ok.mp hgroup)⟩
                genuine := ⟨body, hbody, hver⟩
                content := rfl }⟩
            · cases h

/-- A round verifies all of its redactions, one for each that it carries. -/
theorem verifiedRedactions_ok {prim : Primitives} {db : Database} {author : User}
    {signatures : List (String × String)} {scope : Scope} {pending : List Redaction}
    (h : verifiedRedactions prim db author signatures scope = .ok pending) :
    pending.length = signatures.length ∧ ∀ r ∈ pending, ∃ row p signature,
      Verified prim db author scope r row p signature := by
  have hall := mapM_eq_ok.mp h
  refine ⟨?_, fun r hr => ?_⟩
  · rw [← hall.length_eq, List.length_insertionSort]
  · obtain ⟨i, hi, rfl⟩ := List.mem_iff_getElem.mp hr
    have hentry := (List.forall₂_iff_get.mp hall).2 i (by rw [hall.length_eq]; exact hi) hi
    obtain ⟨row, p, hver⟩ := verifyRedaction_ok hentry
    exact ⟨row, p, _, hver⟩

/-! ## Redacted rows -/

/-- A redacted payload: everything that was signed but the ciphertext, and the new signature. -/
structure RedactedFrom (kind : Kind) (target : String) (p : Value) (signature : String) (q : Value) :
    Prop where
  ct : q.get "ct" = some .null
  copied : ∀ name ∈ ["v", "sid", "ts", "seq", "keys"], q.get name = some ((p.get name).getD .null)
  sig : q.get "sig" = some (.str (.uni signature))
  gid : kind = .group → q.get "gid" = some (.str (.uni target))

theorem payloadIn_redactedContent (kind : Kind) (row : Message) (p : Value) (signature : String) :
    ∃ q, payloadIn (redactedContent kind p signature (convAndGid kind row).2) = some q ∧
      RedactedFrom kind row.target p signature q := by
  cases kind with
  | dm =>
    refine ⟨_, rfl, rfl, ?_, rfl, (fun h => by cases h)⟩
    simp only [List.forall_mem_cons]
    exact ⟨rfl, rfl, rfl, rfl, rfl, (fun _ h => by cases h)⟩
  | group =>
    refine ⟨_, rfl, rfl, ?_, rfl, fun _ => rfl⟩
    simp only [List.forall_mem_cons]
    exact ⟨rfl, rfl, rfl, rfl, rfl, (fun _ h => by cases h)⟩

/-- A redacted row is asked for no more. -/
theorem RedactedFrom.not_listed {kind : Kind} {target : String} {p q : Value} {signature : String}
    (h : RedactedFrom kind target p signature q) : isListed q = false := by
  simp [isListed, isCarrier, h.ct, isNone]

/-! ## Deleting, and leaving the groups -/

/-- The groups are as they were. -/
def SameGroups (db db' : Database) : Prop :=
  db'.groupMembers = db.groupMembers ∧ db'.groupChannels = db.groupChannels

theorem setContent_sameGroups (db : Database) (r : Redaction) : SameGroups db (setContent db r) := by
  obtain ⟨kind, id, content⟩ := r
  cases kind <;> exact ⟨rfl, rfl⟩

theorem setContents_sameGroups (pending : List Redaction) (db : Database) :
    SameGroups db (pending.foldl setContent db) :=
  Runs.foldl_rel (fun _ => ⟨rfl, rfl⟩)
    (fun _ _ _ h h' => ⟨h'.1.trans h.1, h'.2.trans h.2⟩) setContent_sameGroups pending db

/-- A row of the author in the scope that parses and carries nobody's key. -/
def Keyless (db : Database) (a : Address) (scope : Scope) (kind : Kind) (row : Message) : Prop :=
  (kind, row) ∈ ownMessages db a scope ∧ (payloadIn row.content).any isKeyless = true

/-- The author's rows without keys went, and nothing else. -/
structure KeylessDeleted (db db' : Database) (a : Address) (scope : Scope) : Prop where
  mem : ∀ kind row, row ∈ db'.store kind ↔ row ∈ db.store kind ∧ ¬ Keyless db a scope kind row
  groups : SameGroups db db'

theorem deleteOwnMessages_ok {db db' : Database} {a : Address} {scope : Scope} {n : ℕ}
    (h : deleteOwnMessages db a scope = .ok (db', n)) : KeylessDeleted db db' a scope := by
  simp only [deleteOwnMessages, bind_eq_ok, selectRows_eq_ok] at h
  obtain ⟨deletable, ⟨-, rfl⟩, h⟩ := h
  cases h
  have hgone : ∀ kind, ∀ row ∈ db.store kind,
      ((ownMessages db a scope).filterMap (selectedCarrier isKeyless)).any
        (fun c => c.1 == kind && c.2.1.id == row.id) = true ↔ Keyless db a scope kind row := by
    intro kind row hrow
    simp only [List.any_eq_true, List.mem_filterMap, selectedCarrier_eq_some, Bool.and_eq_true, beq_iff_eq]
    constructor
    · rintro ⟨_, ⟨⟨k, x⟩, hx, p, hp, hkey, rfl⟩, rfl, hid⟩
      obtain rfl : x = row := Serial.eq_of_key (mem_ownMessages.mp hx).1 hrow hid
      exact ⟨hx, by rw [hp]; exact hkey⟩
    · rintro ⟨hmem, hany⟩
      cases hp : payloadIn row.content with
      | none => simp [hp] at hany
      | some p =>
        rw [hp] at hany
        exact ⟨_, ⟨(kind, row), hmem, p, hp, hany, rfl⟩, rfl, rfl⟩
  refine ⟨fun kind row => ?_, ⟨rfl, rfl⟩⟩
  have hstore : row ∈ ((db.store kind).delete fun row =>
      ((ownMessages db a scope).filterMap (selectedCarrier isKeyless)).any
        fun c => c.1 == kind && c.2.1.id == row.id) ↔
      row ∈ db.store kind ∧ ¬ Keyless db a scope kind row := by
    rw [Serial.mem_delete]
    refine and_congr_right fun hrow => ?_
    rw [← hgone kind row hrow, Bool.not_eq_true]
  cases kind <;> exact hstore

/-- The channel is not there any more, and had no member but `a`. -/
def ChannelGone (a : Address) (db db' : Database) (channel : String) : Prop :=
  (∀ c ∈ db'.groupChannels, c.id ≠ channel) ∧
    ∀ m ∈ db.groupMembers, m.channelId = channel → m.userAddress = a

/-- What may happen to groups when `a` leaves them: a channel goes with its last member, and its
messages go with it. -/
structure LeftGroups (a : Address) (db db' : Database) : Prop where
  messages : db'.messages = db.messages
  channel : ∀ c' ∈ db'.groupChannels, ∃ c ∈ db.groupChannels, c.id = c'.id
  old : ∀ x ∈ db'.groupMessages, x ∈ db.groupMessages
  kept : ∀ x ∈ db.groupMessages, x ∈ db'.groupMessages ∨ ChannelGone a db db' x.target
  member : ∀ m ∈ db.groupMembers, m.userAddress ≠ a →
    (∃ m' ∈ db'.groupMembers, m'.channelId = m.channelId ∧ m'.userAddress = m.userAddress) ∨
      ∀ x ∈ db'.groupMessages, x.target ≠ m.channelId

theorem LeftGroups.of_same {a : Address} {db db' : Database} (h : db'.messages = db.messages)
    (h' : db'.groupMessages = db.groupMessages) (hg : SameGroups db db') : LeftGroups a db db' where
  messages := h
  channel := fun c hc => ⟨c, hg.2 ▸ hc, rfl⟩
  old := fun _ hx => h' ▸ hx
  kept := fun _ hx => .inl (h' ▸ hx)
  member := fun m hm _ => .inl ⟨m, hg.1 ▸ hm, rfl, rfl⟩

theorem LeftGroups.refl (a : Address) (db : Database) : LeftGroups a db db :=
  .of_same rfl rfl ⟨rfl, rfl⟩

theorem LeftGroups.trans {a : Address} {db₁ db₂ db₃ : Database} (h : LeftGroups a db₁ db₂)
    (h' : LeftGroups a db₂ db₃) : LeftGroups a db₁ db₃ where
  messages := h'.messages.trans h.messages
  channel := by
    intro c₃ hc₃
    obtain ⟨c₂, hc₂, hid₂⟩ := h'.channel c₃ hc₃
    obtain ⟨c₁, hc₁, hid₁⟩ := h.channel c₂ hc₂
    exact ⟨c₁, hc₁, hid₁.trans hid₂⟩
  old := fun x hx => h.old x (h'.old x hx)
  kept := by
    intro x hx
    rcases h.kept x hx with hx₂ | ⟨hgone, halone⟩
    · refine (h'.kept x hx₂).imp id fun ⟨hgone, halone⟩ => ⟨hgone, fun m hm hid => ?_⟩
      by_contra hne
      rcases h.member m hm hne with ⟨m', hm', hid', hme⟩ | hnone
      · exact hne (hme ▸ halone m' hm' (hid'.trans hid))
      · exact hnone x hx₂ hid.symm
    · refine .inr ⟨fun c hc hid => ?_, halone⟩
      obtain ⟨c₂, hc₂, hid₂⟩ := h'.channel c hc
      exact hgone c₂ hc₂ (hid₂.trans hid)
  member := by
    intro m hm hne
    rcases h.member m hm hne with ⟨m₂, hm₂, hid₂, hme₂⟩ | hnone
    · rcases h'.member m₂ hm₂ (hme₂ ▸ hne) with ⟨m₃, hm₃, hid₃, hme₃⟩ | hnone
      · exact .inl ⟨m₃, hm₃, hid₃.trans hid₂, hme₃.trans hme₂⟩
      · exact .inr fun x hx => hid₂ ▸ hnone x hx
    · exact .inr fun x hx => hnone x (h'.old x hx)

/-- Of a list with a member the earliest one is some member. -/
theorem earliest_eq_none {remaining : List GroupMember}
    (h : remaining.foldl (fun best m =>
      match best with
      | none => some m
      | some b => if m.joinedAt < b.joinedAt then some m else some b) (none : Option GroupMember) =
      none) : remaining = [] := by
  have hsome : ∀ (ms : List GroupMember) (b : GroupMember), ms.foldl (fun best m =>
      match best with
      | none => some m
      | some b => if m.joinedAt < b.joinedAt then some m else some b) (some b) ≠ none := by
    intro ms
    induction ms with
    | nil => exact fun b h => by cases h
    | cons m ms ih =>
      intro b
      rw [List.foldl_cons]
      dsimp only
      split
      · exact ih m
      · exact ih b
  cases remaining with
  | nil => rfl
  | cons m ms => exact absurd h (hsome ms m)

theorem succeedGroupOwner_leftGroups (a : Address) (db : Database) (channel : GroupChannel) :
    LeftGroups a db (succeedGroupOwner db channel (db.groupMembers.where' fun m =>
      m.channelId == channel.id && m.userAddress != a)) := by
  simp only [succeedGroupOwner]
  split
  · next hnone =>
    rw [Option.or_eq_none_iff] at hnone
    have hempty := earliest_eq_none hnone.2
    have halone : ∀ m ∈ db.groupMembers, m.channelId = channel.id → m.userAddress = a := by
      intro m hm hid
      by_contra hne
      have hmem : m ∈ db.groupMembers.where' fun m =>
          m.channelId == channel.id && m.userAddress != a :=
        Table.mem_where'.mpr ⟨hm, by simp [hid, hne]⟩
      rw [hempty] at hmem
      cases hmem
    refine ⟨rfl, fun c hc => ?_, fun x hx => (Serial.mem_delete.mp hx).1, fun x hx => ?_,
      fun m hm hne => ?_⟩
    · exact ⟨c, (Table.mem_delete.mp hc).1, rfl⟩
    · by_cases hx' : x.target = channel.id
      · refine .inr ⟨fun c hc => ?_, fun m hm hid => halone m hm (hid.trans hx')⟩
        rw [hx']
        simpa using (Table.mem_delete.mp hc).2
      · exact .inl (Serial.mem_delete.mpr ⟨hx, by simpa using hx'⟩)
    · have hid : m.channelId ≠ channel.id := fun e => hne (halone m hm e)
      exact .inl ⟨m, Serial.mem_delete.mpr ⟨hm, by simpa using hid⟩, rfl, rfl⟩
  · next successor _ =>
    refine ⟨rfl, fun c hc => ?_, fun x hx => hx, fun x hx => .inl hx, fun m hm _ => .inl ?_⟩
    · have hc' : c ∈ db.groupChannels.update (·.id == channel.id)
          (fun c => { c with ownerAddress := successor.userAddress }) (fun _ => rfl) := hc
      obtain ⟨c₀, hc₀, rfl⟩ := Table.mem_update.mp hc'
      refine ⟨c₀, hc₀, ?_⟩
      split <;> rfl
    · refine ⟨_, Serial.update_of_mem hm (·.id == successor.id) (fun m => { m with role := "owner" })
        (fun _ => rfl), ?_⟩
      split <;> exact ⟨rfl, rfl⟩

theorem leaveGroup_leftGroups (a : Address) (db : Database) (m : GroupMember) :
    LeftGroups a db (leaveGroup a db m) := by
  simp only [leaveGroup]
  split
  · exact .refl a db
  · next channel _ =>
    have hdrop : ∀ d : Database, LeftGroups a d { d with
        groupMembers := d.groupMembers.delete fun m =>
          m.channelId == channel.id && m.userAddress == a } := by
      intro d
      refine ⟨rfl, fun c hc => ⟨c, hc, rfl⟩, fun x hx => hx, fun x hx => .inl hx, ?_⟩
      exact fun m hm hne => .inl ⟨m, Serial.mem_delete.mpr ⟨hm, by simp [hne]⟩, rfl, rfl⟩
    split
    · exact (succeedGroupOwner_leftGroups a db channel).trans (hdrop _)
    · exact hdrop db

theorem leaveAllGroups_leftGroups (a : Address) (db : Database) :
    LeftGroups a db (leaveAllGroups db a) := by
  have hrefl := LeftGroups.refl a
  have htrans : ∀ db₁ db₂ db₃, LeftGroups a db₁ db₂ → LeftGroups a db₂ db₃ → LeftGroups a db₁ db₃ :=
    fun _ _ _ => LeftGroups.trans
  exact (Runs.foldl_rel hrefl htrans (leaveGroup_leftGroups a) _ db).trans
    (Runs.foldl_rel hrefl htrans (fun db c => succeedGroupOwner_leftGroups a db c) _ _)

/-- Of the messages, removing an account takes none but those of the channels it was alone in. -/
theorem removeAccount_leftGroups (a : Address) (db : Database) (now : Time) :
    LeftGroups a db (removeAccount db now a .erase) := by
  have hrefl := LeftGroups.refl a
  have htrans : ∀ db₁ db₂ db₃, LeftGroups a db₁ db₂ → LeftGroups a db₂ db₃ → LeftGroups a db₁ db₃ :=
    fun _ _ _ => LeftGroups.trans
  have hworkflows : ∀ d, LeftGroups a d (eraseMultisig d a) := fun d =>
    (Runs.foldl_rel hrefl htrans (f := deleteWorkflowRows)
      (fun _ _ => .of_same rfl rfl ⟨rfl, rfl⟩) _ d).trans
      (.of_same rfl rfl ⟨rfl, rfl⟩)
  have hsecrets : ∀ d, LeftGroups a d (eraseSecrets d a) := fun d =>
    (Runs.foldl_rel hrefl htrans (f := fun d (s : Secret) => deleteSecretRows d s.id)
      (fun _ _ => .of_same rfl rfl ⟨rfl, rfl⟩) _ d).trans
      (.of_same rfl rfl ⟨rfl, rfl⟩)
  have hdropped : LeftGroups a db (dropHoldings db a .erase) :=
    (leaveAllGroups_leftGroups a db).trans ((hworkflows _).trans (hsecrets _))
  have hrest : LeftGroups a (dropHoldings db a .erase) (removeAccount db now a .erase) := by
    unfold removeAccount
    generalize dropHoldings db a .erase = dropped
    exact .of_same rfl rfl ⟨rfl, rfl⟩
  exact hdropped.trans hrest

/-! ## Rounds -/

/-- What is erased: the account with every message, or one conversation. -/
inductive EraseTarget
  | account
  | conversation (kind : Kind) (conversation : String)

def EraseTarget.scope : EraseTarget → Except Fault Scope
  | .account => .ok none
  | .conversation kind path => (scopeOfPath kind path).map some

/-- A request of an erase, with the challenges that wait when it comes. -/
structure Round where
  challenges : Table Nonce
  now : Time
  token : Token
  target : EraseTarget
  request : EraseRequest

def eraseRound (prim : Primitives) (cfg : Config) (db : Database) (round : Round) :
    Database × Except Fault EraseResponse :=
  let db := { db with nonces := round.challenges }
  match getCurrentUser db round.token with
  | .error fault => (db, .error fault)
  | .ok caller =>
    match round.target with
    | .account => performDeletion prim cfg db round.now caller .erase round.request
    | .conversation kind conversation =>
      eraseConversation prim cfg db round.now caller kind conversation round.request

/-- Messages, groups and users are as they were. -/
structure SameContents (db db' : Database) : Prop where
  store : ∀ kind, db'.store kind = db.store kind
  groups : SameGroups db db'
  users : db'.users = db.users

/-- The redactions of a round, verified and written. -/
structure Redacts (prim : Primitives) (db db' : Database) (author : User) (scope : Scope)
    (pending : List Redaction) : Prop where
  verified : ∀ r ∈ pending, ∃ row p signature, Verified prim db author scope r row p signature
  store : ∀ kind, (db'.store kind).rows = (db.store kind).rows.map (rewrite pending kind)
  groups : SameGroups db db'
  users : db'.users = db.users

/-- What follows the redactions of an accepted round: rows are left to redact, and that is all, or
none is left and the erase completes. -/
inductive RoundEffect (a : Address) (scope : Scope) (db db' : Database) (resp : EraseResponse) : Prop
  | redacting (hst : resp.status = .redacting) (hleft : 0 < leftToRedact db a scope)
      (hremaining : resp.remaining = leftToRedact db a scope) (hsame : SameContents db db')
  | done (hst : resp.status ≠ .redacting) (hleft : leftToRedact db a scope = 0)
      (hkept : resp.kept = countKept db a scope) (db₁ : Database)
      (hdeleted : KeylessDeleted db db₁ a scope) (hgroups : LeftGroups a db₁ db')
      (hsame : scope ≠ none → db' = db₁)

section redacts

variable {prim : Primitives} {db db' : Database} {author : User} {scope : Scope}
  {pending : List Redaction}

/-- Redactions leave a row as it is, or replace its content by its redacted form, once they are
verified over what it held. -/
theorem Redacts.fate (h : Redacts prim db db' author scope pending) {kind : Kind} {row : Message}
    (hrow : row ∈ db.store kind) :
    ((∀ r ∈ pending, ¬ (r.1 = kind ∧ row.id = r.2.1)) ∧ rewrite pending kind row = row) ∨
      ∃ r ∈ pending, ∃ p signature, r.1 = kind ∧ Verified prim db author scope r row p signature ∧
        (rewrite pending kind row).content =
          redactedContent kind p signature (convAndGid kind row).2 := by
  refine (rewrite_content pending kind row).imp id ?_
  rintro ⟨r, hr, rfl, hid, hcontent⟩
  obtain ⟨row', p, signature, hver⟩ := h.verified r hr
  obtain rfl : row' = row :=
    Serial.eq_of_key (mem_ownMessages.mp hver.own).1 hrow (hver.id.trans hid.symm)
  exact ⟨r, hr, p, signature, rfl, hver, hcontent.trans hver.content⟩

theorem Redacts.ownMessages_eq (h : Redacts prim db db' author scope pending) (a : Address)
    (scope' : Scope) : ownMessages db' a scope' =
      (ownMessages db a scope').map fun c => (c.1, rewrite pending c.1 c.2) := by
  rw [← ownMessages_setContents]
  have hrows : ∀ kind, (db'.store kind).rows = ((pending.foldl setContent db).store kind).rows :=
    fun kind => by rw [h.store kind, store_setContents]
  simp only [ownMessages, Table.where', hrows]

/-- Redactions put no row on the list. -/
theorem Redacts.listed (h : Redacts prim db db' author scope pending) {c : Kind × Message}
    (hc : c.2 ∈ db.store c.1)
    (hl : (payloadIn (rewrite pending c.1 c.2).content).any isListed = true) :
    (payloadIn c.2.content).any isListed = true ∧ rewrite pending c.1 c.2 = c.2 := by
  rcases h.fate hc with ⟨-, heq⟩ | ⟨r, -, p, signature, -, hver, hcontent⟩
  · rw [heq] at hl
    exact ⟨hl, heq⟩
  · obtain ⟨q, hq, hred⟩ := payloadIn_redactedContent c.1 c.2 p signature
    rw [hcontent, hq, Option.any_some, hred.not_listed] at hl
    cases hl

theorem leftToRedact_eq (h : Redacts prim db db' author scope pending) :
    leftToRedact db' author.address scope = (ownMessages db author.address scope).countP
      fun c => (payloadIn (rewrite pending c.1 c.2).content).any isListed := by
  rw [leftToRedact, h.ownMessages_eq, List.countP_map]
  rfl

/-- Redactions only take rows off the list. -/
theorem Redacts.leftToRedact_le (h : Redacts prim db db' author scope pending) :
    leftToRedact db' author.address scope ≤ leftToRedact db author.address scope := by
  rw [leftToRedact_eq h]
  exact List.countP_mono_left fun c hc hl => (h.listed (mem_ownMessages.mp hc).1 hl).1

/-- Any redaction at all takes a row off the list. -/
theorem Redacts.leftToRedact_lt (h : Redacts prim db db' author scope pending)
    (hne : pending ≠ []) :
    leftToRedact db' author.address scope < leftToRedact db author.address scope := by
  obtain ⟨r, hr⟩ := List.exists_mem_of_ne_nil _ hne
  obtain ⟨row, p, signature, hver⟩ := h.verified r hr
  rw [leftToRedact_eq h]
  refine countP_lt (fun c hc hl => (h.listed (mem_ownMessages.mp hc).1 hl).1) hver.own
    (by rw [hver.payload]; exact hver.listed) ?_
  by_contra hl
  have hrow := (mem_ownMessages.mp hver.own).1
  rcases h.fate hrow with ⟨hnone, -⟩ | ⟨r', -, p', signature', -, -, hcontent⟩
  · exact hnone r hr ⟨rfl, hver.id⟩
  · obtain ⟨q, hq, hred⟩ := payloadIn_redactedContent r.1 row p' signature'
    rw [hcontent, hq, Option.any_some, hred.not_listed] at hl
    exact hl rfl

end redacts

section rounds

variable {prim : Primitives} {cfg : Config} {db db' : Database} {author : User} {scope : Scope}
  {redactions : List (String × String)} {resp : EraseResponse}

theorem applyRedactions_ok {n : ℕ} (h : applyRedactions prim db author redactions scope = .ok (db', n)) :
    ∃ pending, Redacts prim db db' author scope pending ∧ pending.length = redactions.length ∧
      n = pending.length := by
  simp only [applyRedactions, bind_eq_ok] at h
  obtain ⟨pending, hpending, h⟩ := h
  cases h
  obtain ⟨hlength, hverified⟩ := verifiedRedactions_ok hpending
  exact ⟨pending, ⟨hverified, store_setContents pending db, setContents_sameGroups pending db,
    (setContents_messaging pending db).2⟩, hlength, rfl⟩

theorem eraseScope_ok {key : Kind × String}
    (h : eraseScope prim db author key redactions = .ok (db', resp)) :
    ∃ pending db₁, Redacts prim db db₁ author (some key) pending ∧
      pending.length = redactions.length ∧ resp.redacted = pending.length ∧
      AllReadable db₁ author.address (some key) ∧
      RoundEffect author.address (some key) db₁ db' resp := by
  simp only [eraseScope, bind_eq_ok] at h
  obtain ⟨⟨db₁, n⟩, happly, keys, hkeys, h⟩ := h
  obtain ⟨pending, hredacts, hlength, rfl⟩ := applyRedactions_ok happly
  obtain ⟨hread, hleft⟩ : AllReadable db₁ author.address (some key) ∧
      keys.length = leftToRedact db₁ author.address (some key) := length_redactionKeys hkeys
  refine ⟨pending, db₁, hredacts, hlength, ?_⟩
  split at h
  · next hne =>
    cases h
    exact ⟨rfl, hread, .redacting rfl (hleft ▸ Nat.pos_of_ne_zero hne) hleft
      ⟨fun _ => rfl, ⟨rfl, rfl⟩, rfl⟩⟩
  · next heq =>
    have hzero : leftToRedact db₁ author.address (some key) = 0 := hleft ▸ not_not.mp heq
    simp only [bind_eq_ok, keptMessages_eq_ok] at h
    obtain ⟨kept, ⟨-, rfl⟩, ⟨db₂, deleted⟩, hdel, h⟩ := h
    cases h
    exact ⟨rfl, hread, .done (fun h => by cases h) hzero rfl db₂ (deleteOwnMessages_ok hdel) (.refl _ _)
      fun _ => rfl⟩

theorem eraseAccount_ok {now : Time}
    (h : eraseAccount prim db now author redactions = .ok (db', resp)) :
    ∃ pending db₁, Redacts prim db db₁ author none pending ∧
      pending.length = redactions.length ∧ resp.redacted = pending.length ∧
      AllReadable db₁ author.address none ∧ RoundEffect author.address none db₁ db' resp := by
  simp only [eraseAccount, bind_eq_ok] at h
  obtain ⟨⟨db₁, n⟩, happly, keys, hkeys, h⟩ := h
  obtain ⟨pending, hredacts, hlength, rfl⟩ := applyRedactions_ok happly
  obtain ⟨hread, hleft⟩ : AllReadable db₁ author.address none ∧
      keys.length = leftToRedact db₁ author.address none := length_redactionKeys hkeys
  refine ⟨pending, db₁, hredacts, hlength, ?_⟩
  split at h
  · next hne =>
    cases h
    exact ⟨rfl, hread, .redacting rfl (hleft ▸ Nat.pos_of_ne_zero hne) hleft
      ⟨fun _ => rfl, ⟨rfl, rfl⟩, rfl⟩⟩
  · next heq =>
    have hzero : leftToRedact db₁ author.address none = 0 := hleft ▸ not_not.mp heq
    simp only [bind_eq_ok, keptMessages_eq_ok] at h
    obtain ⟨kept, ⟨-, rfl⟩, db₂, hdel, h⟩ := h
    cases h
    obtain ⟨⟨db₃, deleted⟩, hmessages, rfl⟩ := map_eq_ok.mp hdel
    exact ⟨rfl, hread, .done (fun h => by cases h) hzero rfl db₃ (deleteOwnMessages_ok hmessages)
      (removeAccount_leftGroups _ _ _) fun hne => absurd rfl hne⟩

theorem SameContents.challenges (db : Database) (T : Table Nonce) :
    SameContents db { db with nonces := T } :=
  ⟨fun kind => by cases kind <;> rfl, ⟨rfl, rfl⟩, rfl⟩

theorem SameContents.trans {db₁ db₂ db₃ : Database} (h : SameContents db₁ db₂)
    (h' : SameContents db₂ db₃) : SameContents db₁ db₃ :=
  ⟨fun kind => (h'.store kind).trans (h.store kind),
    ⟨h'.groups.1.trans h.groups.1, h'.groups.2.trans h.groups.2⟩, h'.users.trans h.users⟩

theorem Redacts.of_same {db₀ db₁ : Database} {pending : List Redaction} (hsame : SameContents db db₀)
    (h : Redacts prim db₀ db₁ author scope pending) : Redacts prim db db₁ author scope pending where
  verified := fun r hr => by
    obtain ⟨row, p, signature, hver⟩ := h.verified r hr
    exact ⟨row, p, signature, { hver with own := ownMessages_congr hsame.store ▸ hver.own }⟩
  store := fun kind => by rw [h.store kind, hsame.store kind]
  groups := ⟨h.groups.1.trans hsame.groups.1, h.groups.2.trans hsame.groups.2⟩
  users := h.users.trans hsame.users

/-- Between the request and its transaction only challenges went. -/
theorem claimed_sameContents (db : Database) (round : Round) (a : Address) (now : Time)
    (nonce : String) :
    SameContents db (claimNonce { db with nonces := round.challenges } now a nonce).1 :=
  (SameContents.challenges db round.challenges).trans (.challenges _ _)

theorem transaction_eq_ok {α : Type} {r : Except Fault (Database × α)} {x : α} :
    transaction db r = (db', .ok x) ↔ r = .ok (db', x) := by
  rcases r with e | ⟨db₁, y⟩ <;> simp [transaction]

theorem transaction_eq_error {α : Type} {r : Except Fault (Database × α)} {fault : Fault}
    (h : transaction db r = (db', .error fault)) : db' = db := by
  rcases r with e | ⟨db₁, y⟩
  · simp only [transaction, Prod.mk.injEq] at h
    exact h.1.symm
  · simp [transaction] at h

/-- An accepted round redacts what it carries, and goes on or completes. -/
theorem eraseRound_ok {round : Round} (h : eraseRound prim cfg db round = (db', .ok resp)) :
    ∃ author ∈ db.users, author.address = lower round.token.sub ∧ ∃ scope,
      round.target.scope = .ok scope ∧ ∃ pending db₁,
        Redacts prim db db₁ author scope pending ∧
        pending.length = round.request.redactions.length ∧ resp.redacted = pending.length ∧
        AllReadable db₁ author.address scope ∧ RoundEffect author.address scope db₁ db' resp := by
  simp only [eraseRound] at h
  split at h
  · cases h
  · next author hauthor =>
    obtain ⟨hmem, haddr, -⟩ := getCurrentUser_ok hauthor
    refine ⟨author, hmem, haddr, ?_⟩
    split at h
    · next htarget =>
      refine ⟨none, by rw [htarget]; rfl, ?_⟩
      simp only [performDeletion] at h
      split at h
      · cases h
      · obtain ⟨_, -, hacc⟩ := bind_eq_ok.mp (transaction_eq_ok.mp h)
        obtain ⟨pending, db₁, hredacts, hrest⟩ := eraseAccount_ok hacc
        exact ⟨pending, db₁, hredacts.of_same (claimed_sameContents _ _ _ _ _), hrest⟩
    · next kind conversation htarget =>
      simp only [eraseConversation] at h
      split at h
      · cases h
      · next key hkey =>
        refine ⟨some key, by rw [htarget, EraseTarget.scope, hkey]; rfl, ?_⟩
        split at h
        · cases h
        · obtain ⟨_, -, hconv⟩ := bind_eq_ok.mp (transaction_eq_ok.mp h)
          obtain ⟨pending, db₁, hredacts, hrest⟩ := eraseScope_ok hconv
          exact ⟨pending, db₁, hredacts.of_same (claimed_sameContents _ _ _ _ _), hrest⟩

/-- A refused round changes no message. -/
theorem eraseRound_error {round : Round} {fault : Fault}
    (h : eraseRound prim cfg db round = (db', .error fault)) : SameContents db db' := by
  simp only [eraseRound] at h
  split at h
  · cases h
    exact .challenges db _
  · split at h
    · simp only [performDeletion] at h
      split at h
      · cases h
        exact claimed_sameContents db round _ _ _
      · rw [transaction_eq_error h]
        exact claimed_sameContents db round _ _ _
    · simp only [eraseConversation] at h
      split at h
      · cases h
        exact .challenges db _
      · split at h
        · cases h
          exact claimed_sameContents db round _ _ _
        · rw [transaction_eq_error h]
          exact claimed_sameContents db round _ _ _

end rounds

end Kryptolog.Server
