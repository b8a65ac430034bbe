import Kryptolog.Library.Pages
import Kryptolog.Server.EraseProgress

/-! # The manifest of an erase

`redactable_messages` lists, a page at a time, what the client has to sign before an erase; the erase completes
where `redaction_keys` is empty. The pages walk the same rows as the keys and stop where they are full.
-/

namespace Kryptolog.Server
set_option autoImplicit false

open Tables Json Fallible

/-- `RedactableMessageResponse`. -/
structure ManifestRow where
  id : ℕ
  kind : Kind
  key : String
  conv : String
  gid : String
  sid : Value
  ts : Value
  seq : Value
  keys : Value

def manifestRow (kind : Kind) (row : Message) (payload : Value) : ManifestRow where
  id := row.id
  kind := kind
  key := redactionKey kind row.id
  conv := (convAndGid kind row).1
  gid := (convAndGid kind row).2
  sid := (payload.get "sid").getD .null
  ts := (payload.get "ts").getD .null
  seq := (payload.get "seq").getD .null
  keys := (payload.get "keys").getD .null

/-- The loop of `redactable_messages` over the rows that are left, with what was seen and listed before. -/
def manifestFrom (limit offset : ℕ) :
    List (Kind × Message) → ℕ → List ManifestRow → Except Fault (List ManifestRow)
  | [], _, manifest => .ok manifest
  | (kind, row) :: rows, seen, manifest => do
    match ← payloadOf row.content with
    | none => manifestFrom limit offset rows seen manifest
    | some payload =>
      if !isCarrier payload || !isSignable payload then manifestFrom limit offset rows seen manifest
      else if seen + 1 ≤ offset then manifestFrom limit offset rows (seen + 1) manifest
      else
        let manifest := manifest ++ [manifestRow kind row payload]
        if limit ≤ manifest.length then .ok manifest else manifestFrom limit offset rows (seen + 1) manifest

/-- One page of the manifest. -/
def redactableMessages (db : Database) (a : Address) (limit offset : ℕ) (scope : Scope) :
    Except Fault (List ManifestRow) := manifestFrom limit offset (ownMessages db a scope) 0 []

/-- `MANIFEST_PAGE_MAX`. -/
def manifestPageMax : ℕ := 100

/-- The bounds of the query. -/
def checkLimit (limit : ℕ) : Except Fault Unit :=
  if limit < 1 then .error (.http 422 "query.limit: Input should be greater than or equal to 1")
  else if manifestPageMax < limit then
    .error (.http 422 "query.limit: Input should be less than or equal to 100")
  else .ok ()

/-- The endpoints `redactable_messages` of the account and of a conversation. -/
def getRedactable (db : Database) (token : Token) (target : EraseTarget) (limit offset : ℕ) :
    Except Fault (List ManifestRow) := do
  let caller ← getCurrentUser db token
  checkLimit limit
  let scope ← target.scope
  redactableMessages db caller.address limit offset scope

/-- A round as it is posted: the body is checked before the endpoint. -/
def postErase (prim : Primitives) (cfg : Config) (db : Database) (round : Round) :
    Database × Except Fault EraseResponse :=
  if maxRedactionsPerDelete < round.request.redactions.length then
    ({ db with nonces := round.challenges },
      .error (.http 422 "redactions: List should have at most 1000 items after validation"))
  else eraseRound prim cfg db round

/-! ## What is listed -/

section listed

variable {db db' : Database} {a : Address} {scope : Scope}

/-- The rows that are listed, each with its payload. -/
def listedCarriers (db : Database) (a : Address) (scope : Scope) : List Carrier :=
  (ownMessages db a scope).filterMap (selectedCarrier isListed)

def manifestOf (c : Carrier) : ManifestRow := manifestRow c.1 c.2.1 c.2.2

theorem manifestFrom_eq {limit offset seen : ℕ} {rows : List (Kind × Message)} {manifest : List ManifestRow}
    (hread : ∀ c ∈ rows, readable c.2.content = true) (hlimit : manifest.length < limit) :
    manifestFrom limit offset rows seen manifest = .ok (manifest ++
      (((rows.filterMap (selectedCarrier isListed)).map manifestOf).drop (offset - seen)).take
        (limit - manifest.length)) := by
  induction rows generalizing seen manifest with
  | nil =>
    rw [manifestFrom]
    simp
  | cons c rows ih =>
    obtain ⟨kind, row⟩ := c
    obtain ⟨hrow, hrest⟩ := List.forall_mem_cons.mp hread
    have hpayload : payloadOf row.content = .ok (payloadIn row.content) := payloadOf_eq_ok.mpr ⟨hrow, rfl⟩
    rw [manifestFrom, hpayload, ok_bind]
    cases hp : payloadIn row.content with
    | none =>
      have hskip : selectedCarrier isListed (kind, row) = none := by rw [selectedCarrier, hp, Option.bind_none]
      rw [List.filterMap_cons_none hskip]
      exact ih hrest hlimit
    | some p =>
      simp only
      by_cases hl : isListed p = true
      · have htake : selectedCarrier isListed (kind, row) = some (kind, row, p) := by
          rw [selectedCarrier, hp, Option.bind_some, if_pos hl]
        obtain ⟨hcarrier, hsignable⟩ := Bool.and_eq_true_iff.mp hl
        rw [List.filterMap_cons_some htake, List.map_cons, hcarrier, hsignable]
        simp only [Bool.not_true, Bool.or_self, Bool.false_eq_true, if_false]
        by_cases hseen : seen + 1 ≤ offset
        · obtain ⟨k, hk⟩ : ∃ k, offset - seen = k + 1 := ⟨offset - seen - 1, by omega⟩
          rw [if_pos hseen, ih hrest hlimit, hk, List.drop_succ_cons, show offset - (seen + 1) = k by omega]
        · obtain ⟨k, hk⟩ : ∃ k, limit - manifest.length = k + 1 := ⟨limit - manifest.length - 1, by omega⟩
          rw [if_neg hseen, show offset - seen = 0 by omega, List.drop_zero, hk, List.take_succ_cons]
          have hlength : (manifest ++ [manifestRow kind row p]).length = manifest.length + 1 := by simp
          by_cases hfull : limit ≤ (manifest ++ [manifestRow kind row p]).length
          · rw [if_pos hfull, show k = 0 by omega, List.take_zero]
            rfl
          · rw [if_neg hfull, ih hrest (by omega), hlength, show offset - (seen + 1) = 0 by omega,
              show limit - (manifest.length + 1) = k by omega, List.append_assoc]
            rfl
      · have hskip : selectedCarrier isListed (kind, row) = none := by
          rw [selectedCarrier, hp, Option.bind_some, if_neg hl]
        have hnot : (!isCarrier p || !isSignable p) = true := by
          rw [← Bool.not_and, Bool.not_eq_true']
          exact Bool.eq_false_iff.mpr hl
        rw [List.filterMap_cons_none hskip, if_pos hnot]
        exact ih hrest hlimit

/-- A page is a piece of one list. -/
theorem redactableMessages_eq {limit offset : ℕ} (hread : AllReadable db a scope) (hlimit : 0 < limit) :
    redactableMessages db a limit offset scope =
      .ok ((((listedCarriers db a scope).map manifestOf).drop offset).take limit) := by
  rw [redactableMessages, manifestFrom_eq hread hlimit, List.nil_append]
  rfl

theorem map_key_manifestOf {keys : List String} (h : redactionKeys db a scope = .ok keys) :
    ((listedCarriers db a scope).map manifestOf).map ManifestRow.key = keys := by
  rw [(redactionKeys_eq_ok.mp h).2, List.map_map]
  rfl

theorem length_listedCarriers : (listedCarriers db a scope).length = leftToRedact db a scope :=
  length_selectedCarrier ..

/-! ## Every row once -/

/-- The row of a carrier, by its kind and number. -/
def Carrier.place (c : Carrier) : Kind × ℕ := (c.1, c.2.1.id)

theorem nodup_ownMessages (db : Database) (a : Address) (scope : Scope) :
    ((ownMessages db a scope).map fun c => (c.1, c.2.id)).Nodup := by
  have hkinds : scope.kinds.Nodup := by
    cases scope with
    | none => decide
    | some s => exact List.nodup_singleton _
  rw [ownMessages, List.map_flatMap, List.nodup_flatMap]
  refine ⟨fun kind _ => ?_, hkinds.imp fun {k k'} hne => ?_⟩
  · rw [List.map_map]
    have hids : (((db.store kind).where' fun row => row.senderAddress == a && inScope kind row scope).map
        Message.id).Nodup := (db.store kind).nodup.sublist (List.filter_sublist.map _)
    have hpairs := hids.map (Prod.mk_right_injective kind)
    rw [List.map_map] at hpairs
    exact hpairs
  · intro c hc hc'
    obtain ⟨x, hx, rfl⟩ := List.mem_map.mp hc
    obtain ⟨y, hy, heq⟩ := List.mem_map.mp hc'
    obtain ⟨x, -, rfl⟩ := List.mem_map.mp hx
    obtain ⟨y, -, rfl⟩ := List.mem_map.mp hy
    exact hne (Prod.mk.inj heq).1.symm

/-- The carriers are rows of the walk, in its order. -/
theorem map_selectedCarrier (test : Value → Bool) (rows : List (Kind × Message)) :
    (rows.filterMap (selectedCarrier test)).map (fun c => (c.1, c.2.1)) =
      rows.filter fun c => (payloadIn c.2.content).any test := by
  rw [List.map_filterMap, ← List.filterMap_eq_filter]
  refine List.filterMap_congr fun c _ => ?_
  cases hp : payloadIn c.2.content with
  | none => simp [selectedCarrier, hp, Option.guard]
  | some p => by_cases ht : test p = true <;> simp [selectedCarrier, hp, ht, Option.guard]

theorem nodup_listed (db : Database) (a : Address) (scope : Scope) :
    ((listedCarriers db a scope).map Carrier.place).Nodup := by
  have hsublist := List.filter_sublist (p := fun c : Kind × Message => (payloadIn c.2.content).any isListed)
    (l := ownMessages db a scope)
  rw [← map_selectedCarrier] at hsublist
  have hplaces := (nodup_ownMessages db a scope).sublist (hsublist.map fun c => (c.1, c.2.id))
  rw [List.map_map] at hplaces
  exact hplaces

theorem redactionKey_inj {kind kind' : Kind} {id id' : ℕ} (h : redactionKey kind id = redactionKey kind' id') :
    kind = kind' ∧ id = id' := by
  have hparsed := (parseKey_redactionKey samplePrimitives kind id).symm.trans
    ((congrArg (parseKey samplePrimitives) h).trans (parseKey_redactionKey samplePrimitives kind' id'))
  exact Prod.mk.inj (Except.ok.inj hparsed)

theorem nodup_redactionKeys {keys : List String} (h : redactionKeys db a scope = .ok keys) : keys.Nodup := by
  rw [(redactionKeys_eq_ok.mp h).2]
  have hkeys := (nodup_listed db a scope).map (f := fun place : Kind × ℕ => redactionKey place.1 place.2)
    fun x y hxy => Prod.ext_iff.mpr (redactionKey_inj hxy)
  rw [List.map_map] at hkeys
  exact hkeys

/-- Pages that reach the end list every key once, and nothing else. -/
theorem pages_eq_redactionKeys {keys : List String} (h : redactionKeys db a scope = .ok keys) {limit count : ℕ}
    (hlimit : 0 < limit) (hcount : keys.length ≤ count * limit) :
    ∃ pages, ((List.range count).mapM fun i => redactableMessages db a limit (i * limit) scope) = .ok pages ∧
      pages.flatten.map ManifestRow.key = keys := by
  have hread := (redactionKeys_eq_ok.mp h).1
  have hkeys := map_key_manifestOf h
  have hlength : ((listedCarriers db a scope).map manifestOf).length ≤ count * limit := by
    rw [← hkeys, List.length_map] at hcount
    exact hcount
  refine ⟨(List.range count).map fun i =>
    (((listedCarriers db a scope).map manifestOf).drop (i * limit)).take limit, ?_, ?_⟩
  · rw [mapM_eq_ok, List.forall₂_map_right_iff]
    exact List.forall₂_same.mpr fun i _ => redactableMessages_eq hread hlimit
  · have hpages := Pages.pages_const limit ((listedCarriers db a scope).map manifestOf) count
    rw [Pages.pages, List.flatMap_def] at hpages
    rw [hpages, List.take_of_length_le hlength, hkeys]

/-! ## Where a row cannot be read -/

theorem recursionError_of_payloadOf {d : Document} {fault : Fault} (h : payloadOf d = .error fault) :
    fault = .unhandled "RecursionError" := by
  cases d with
  | json v => cases v <;> cases h
  | notJson raw => cases h
  | tooDeep raw => exact (Except.error.inj h).symm

theorem selectRows_error {test : Value → Bool} {rows : List (Kind × Message)} {fault : Fault}
    (h : selectRows test rows = .error fault) : fault = .unhandled "RecursionError" := by
  induction rows with
  | nil => cases h
  | cons c rows ih =>
    rw [selectRows] at h
    rcases bind_eq_error.mp h with hpayload | ⟨payload, -, hrest⟩
    · exact recursionError_of_payloadOf hpayload
    · rcases bind_eq_error.mp hrest with hrows | ⟨rest, -, hlast⟩
      · exact ih hrows
      · cases payload <;> cases hlast

theorem redactionKeys_error {fault : Fault} (h : redactionKeys db a scope = .error fault) :
    fault = .unhandled "RecursionError" := by
  rcases bind_eq_error.mp h with hrows | ⟨carriers, -, hlast⟩
  · exact selectRows_error hrows
  · cases hlast

theorem manifestFrom_error {limit offset seen : ℕ} {rows : List (Kind × Message)} {manifest : List ManifestRow}
    {fault : Fault} (h : manifestFrom limit offset rows seen manifest = .error fault) :
    fault = .unhandled "RecursionError" := by
  induction rows generalizing seen manifest with
  | nil => cases h
  | cons c rows ih =>
    rw [manifestFrom] at h
    rcases bind_eq_error.mp h with hpayload | ⟨payload, -, hrest⟩
    · exact recursionError_of_payloadOf hpayload
    · cases payload with
      | none => exact ih hrest
      | some p =>
        simp only at hrest
        split at hrest
        · exact ih hrest
        · split at hrest
          · exact ih hrest
          · split at hrest
            · cases hrest
            · exact ih hrest

/-- A page that is not filled was read to the end. -/
theorem manifestFrom_short {limit offset seen : ℕ} {rows : List (Kind × Message)}
    {manifest out : List ManifestRow} (h : manifestFrom limit offset rows seen manifest = .ok out)
    (hshort : manifest.length + ((rows.filterMap (selectedCarrier isListed)).length - (offset - seen)) < limit) :
    ∀ c ∈ rows, readable c.2.content = true := by
  induction rows generalizing seen manifest with
  | nil => simp
  | cons c rows ih =>
    obtain ⟨kind, row⟩ := c
    rw [manifestFrom] at h
    obtain ⟨payload, hpayload, hrest⟩ := bind_eq_ok.mp h
    obtain ⟨hrow, rfl⟩ := payloadOf_eq_ok.mp hpayload
    refine List.forall_mem_cons.mpr ⟨hrow, ?_⟩
    cases hp : payloadIn row.content with
    | none =>
      have hskip : selectedCarrier isListed (kind, row) = none := by rw [selectedCarrier, hp, Option.bind_none]
      rw [List.filterMap_cons_none hskip] at hshort
      rw [hp] at hrest
      exact ih hrest hshort
    | some p =>
      rw [hp] at hrest
      simp only at hrest
      split at hrest
      · next hnot =>
        have hl : ¬ isListed p = true := by
          rw [← Bool.not_and, Bool.not_eq_true'] at hnot
          exact Bool.eq_false_iff.mp hnot
        have hskip : selectedCarrier isListed (kind, row) = none := by
          rw [selectedCarrier, hp, Option.bind_some, if_neg hl]
        rw [List.filterMap_cons_none hskip] at hshort
        exact ih hrest hshort
      · next hnot =>
        have hl : isListed p = true := by
          rw [← Bool.not_and, Bool.not_eq_true, Bool.not_eq_false'] at hnot
          exact hnot
        have htake : selectedCarrier isListed (kind, row) = some (kind, row, p) := by
          rw [selectedCarrier, hp, Option.bind_some, if_pos hl]
        rw [List.filterMap_cons_some htake, List.length_cons] at hshort
        split at hrest
        · exact ih hrest (by omega)
        · have hlength : (manifest ++ [manifestRow kind row p]).length = manifest.length + 1 := by simp
          split at hrest
          · omega
          · exact ih hrest (by omega)

/-- The pages of a manifest with an unreadable row fail where the page that reaches its end does. -/
theorem pages_unreadable {limit count : ℕ} (hlimit : 0 < limit)
    (hcount : (ownMessages db a scope).length ≤ count * limit) (hread : ¬ AllReadable db a scope) :
    ((List.range count).mapM fun i => redactableMessages db a limit (i * limit) scope) =
      .error (.unhandled "RecursionError") := by
  cases hpages : (List.range count).mapM fun i => redactableMessages db a limit (i * limit) scope with
  | error fault =>
    obtain ⟨_, i, _, -, -, hpage⟩ := mapM_eq_error.mp hpages
    rw [manifestFrom_error hpage]
  | ok pages =>
    have hfewer : (listedCarriers db a scope).length < (ownMessages db a scope).length := by
      rw [listedCarriers, List.length_filterMap_lt_length_iff_exists]
      by_contra hall
      refine hread fun c hc => ?_
      cases hcontent : c.2.content with
      | tooDeep raw => exact absurd ⟨c, hc, by rw [selectedCarrier, hcontent]; rfl⟩ hall
      | _ => rfl
    have hlast : (listedCarriers db a scope).length / limit < count :=
      (Nat.div_lt_iff_lt_mul hlimit).mpr (by omega)
    obtain ⟨page, hpage⟩ := mapM_isOk.mp ⟨pages, hpages⟩ _ (List.mem_range.mpr hlast)
    have hmod := Nat.mod_lt (listedCarriers db a scope).length hlimit
    have hdiv := Nat.div_add_mod' (listedCarriers db a scope).length limit
    refine absurd (manifestFrom_short hpage ?_) hread
    change 0 + ((listedCarriers db a scope).length - (_ - 0)) < limit
    omega

/-- The pages and the keys agree for every store, also where a row of it cannot be read. -/
theorem map_pages_eq_redactionKeys {limit count : ℕ} (hlimit : 0 < limit)
    (hcount : (ownMessages db a scope).length ≤ count * limit) :
    ((List.range count).mapM fun i => redactableMessages db a limit (i * limit) scope).map
      (fun pages => pages.flatten.map ManifestRow.key) = redactionKeys db a scope := by
  cases hkeys : redactionKeys db a scope with
  | ok keys =>
    have hlength : keys.length ≤ count * limit := by
      rw [(length_redactionKeys hkeys).2]
      exact List.countP_le_length.trans hcount
    obtain ⟨pages, hpages, hmap⟩ := pages_eq_redactionKeys hkeys hlimit hlength
    rw [hpages, ← hmap]
    rfl
  | error fault =>
    have hread : ¬ AllReadable db a scope := fun hread => by
      rw [redactionKeys_eq_ok.mpr ⟨hread, rfl⟩] at hkeys
      cases hkeys
    rw [pages_unreadable hlimit hcount hread, redactionKeys_error hkeys]
    rfl

end listed

/-! ## What a round takes off the list -/

section round

variable {prim : Primitives} {db db' : Database} {u : User} {scope : Scope} {pending : List Redaction}

/-- A redaction of the row of a carrier. -/
def names (pending : List Redaction) (c : Carrier) : Bool := pending.any fun r => (r.1, r.2.1) == c.place

/-- Redacted rows are listed no more, and the others are listed as they were. -/
theorem Redacts.listedCarriers_eq (h : Redacts prim db db' u scope pending) :
    listedCarriers db' u.address scope = (listedCarriers db u.address scope).filter fun c => !names pending c := by
  rw [listedCarriers, h.ownMessages_eq, List.filterMap_map, listedCarriers, List.filter_filterMap]
  refine List.filterMap_congr fun c hc => ?_
  obtain ⟨kind, row⟩ := c
  simp only [Function.comp_apply]
  rcases h.fate (mem_ownMessages.mp hc).1 with ⟨hnone, heq⟩ | ⟨r, hr, p, signature, hkind, hver, hcontent⟩
  · rw [heq]
    cases hsel : selectedCarrier isListed (kind, row) with
    | none => rfl
    | some x =>
      obtain ⟨p, -, -, rfl⟩ := selectedCarrier_eq_some.mp hsel
      have hnot : names pending (kind, row, p) = false := by
        rw [names, List.any_eq_false]
        intro r hr heq
        obtain ⟨hk, hid⟩ := Prod.mk.inj (beq_iff_eq.mp heq)
        exact hnone r hr ⟨hk, hid.symm⟩
      rw [Option.filter_some, hnot]
      rfl
  · obtain ⟨q, hq, hred⟩ := payloadIn_redactedContent kind row p signature
    have hgone : selectedCarrier isListed (kind, rewrite pending kind row) = none := by
      rw [selectedCarrier, hcontent, hq, Option.bind_some, if_neg]
      rw [hred.not_listed]
      exact Bool.false_ne_true
    rw [hgone]
    cases hsel : selectedCarrier isListed (kind, row) with
    | none => rfl
    | some x =>
      obtain ⟨p', -, -, rfl⟩ := selectedCarrier_eq_some.mp hsel
      have hnamed : names pending (kind, row, p') = true :=
        List.any_eq_true.mpr ⟨r, hr, beq_iff_eq.mpr (Prod.ext hkind hver.id.symm)⟩
      rw [Option.filter_some, hnamed]
      rfl

/-- What a client may be asked to sign: the row declares no other group, and a signature of its redacted body
verifies. -/
structure SignedBy (prim : Primitives) (u : User) (c : Carrier) (signature : String) : Prop where
  group : declaresOtherGroup c.1 c.2.1 c.2.2 = false
  genuine : ∃ body, redactionBody prim u.address c = .ok body ∧
    prim.verifyIdentitySignature u.identityPublicKey body signature = true

theorem mem_listedCarriers {a : Address} {c : Carrier} :
    c ∈ listedCarriers db a scope ↔ (c.1, c.2.1) ∈ ownMessages db a scope ∧
      payloadIn c.2.1.content = some c.2.2 ∧ isListed c.2.2 = true := by
  simp only [listedCarriers, List.mem_filterMap, selectedCarrier_eq_some]
  constructor
  · rintro ⟨x, hx, p, hp, hl, rfl⟩
    exact ⟨hx, hp, hl⟩
  · rintro ⟨hx, hp, hl⟩
    exact ⟨_, hx, _, hp, hl, rfl⟩

theorem verifyRedaction_listed {c : Carrier} {signature : String} (hread : AllReadable db u.address scope)
    (hc : c ∈ listedCarriers db u.address scope) (hsigned : SignedBy prim u c signature) :
    ∃ content, verifyRedaction prim db u scope (redactionKey c.1 c.2.1.id, signature) =
      .ok (c.1, c.2.1.id, content) := by
  obtain ⟨hown, hp, hl⟩ := mem_listedCarriers.mp hc
  obtain ⟨body, hbody, hver⟩ := hsigned.genuine
  obtain ⟨hts, hseq⟩ := redactionBody_positions hbody
  have hred : Redactable c.1 c.2.1 c.2.2 := ⟨hts, hseq, declaresOtherGroup_eq_false.mp hsigned.group⟩
  exact ⟨_, verifyRedaction_row (c := (c.1, c.2.1)) (parseKey_redactionKey prim c.1 c.2.1.id) hown hp
    (hread _ hown) hl hred hbody hver⟩

/-- The redactions that a client sends for rows of the manifest, with their signatures. -/
def redactionsOf (entries : List (Carrier × String)) : List (String × String) :=
  entries.map fun e => (redactionKey e.1.1 e.1.2.1.id, e.2)

theorem applyRedactions_listed {entries : List (Carrier × String)} (hread : AllReadable db u.address scope)
    (hentries : ∀ e ∈ entries, e.1 ∈ listedCarriers db u.address scope ∧ SignedBy prim u e.1 e.2) :
    ∃ db' pending, applyRedactions prim db u (redactionsOf entries) scope = .ok (db', entries.length) ∧
      Redacts prim db db' u scope pending ∧
      ∀ c, names pending c = true ↔ ∃ e ∈ entries, e.1.place = c.place := by
  have hperm := List.perm_insertionSort (fun a b : String × String => a.1 ≤ b.1) (redactionsOf entries)
  have hverify : ∀ e ∈ entries, ∃ content,
      verifyRedaction prim db u scope (redactionKey e.1.1 e.1.2.1.id, e.2) = .ok (e.1.1, e.1.2.1.id, content) :=
    fun e he => verifyRedaction_listed hread (hentries e he).1 (hentries e he).2
  have hall : ∀ x ∈ (redactionsOf entries).insertionSort (fun a b => a.1 ≤ b.1), ∃ r,
      verifyRedaction prim db u scope x = .ok r := by
    intro x hx
    obtain ⟨e, he, rfl⟩ := List.mem_map.mp (hperm.mem_iff.mp hx)
    obtain ⟨content, hcontent⟩ := hverify e he
    exact ⟨_, hcontent⟩
  obtain ⟨pending, hpending⟩ := mapM_isOk.mpr hall
  obtain ⟨hlength, hverified⟩ := verifiedRedactions_ok hpending
  rw [redactionsOf, List.length_map] at hlength
  refine ⟨pending.foldl setContent db, pending, ?_, ⟨hverified, store_setContents pending db,
    setContents_sameGroups pending db, (setContents_messaging pending db).2⟩, fun c => ?_⟩
  · rw [← hlength]
    exact bind_eq_ok.mpr ⟨pending, hpending, rfl⟩
  · simp only [names, List.any_eq_true, beq_iff_eq]
    constructor
    · rintro ⟨r, hr, hplace⟩
      obtain ⟨x, hx, hxr⟩ := (mem_mapM hpending).mp hr
      obtain ⟨e, he, rfl⟩ := List.mem_map.mp (hperm.mem_iff.mp hx)
      obtain ⟨content, hcontent⟩ := hverify e he
      obtain rfl := Except.ok.inj (hcontent.symm.trans hxr)
      exact ⟨e, he, hplace⟩
    · rintro ⟨e, he, hplace⟩
      obtain ⟨content, hcontent⟩ := hverify e he
      have hx : (redactionKey e.1.1 e.1.2.1.id, e.2) ∈
          (redactionsOf entries).insertionSort (fun a b => a.1 ≤ b.1) :=
        hperm.mem_iff.mpr (List.mem_map.mpr ⟨e, he, rfl⟩)
      exact ⟨_, (mem_mapM hpending).mpr ⟨_, hx, hcontent⟩, hplace⟩

/-- A round over the first rows of the manifest leaves the rows after them. -/
theorem listedCarriers_after_round {entries : List (Carrier × String)} {k : ℕ}
    (hentries : entries.map Prod.fst = (listedCarriers db u.address scope).take k)
    (h : Redacts prim db db' u scope pending)
    (hnames : ∀ c, names pending c = true ↔ ∃ e ∈ entries, e.1.place = c.place) :
    listedCarriers db' u.address scope = (listedCarriers db u.address scope).drop k := by
  rw [h.listedCarriers_eq]
  refine filter_not_take (nodup_listed db u.address scope) k fun c => (hnames c).trans ?_
  rw [← hentries]
  constructor
  · rintro ⟨e, he, hplace⟩
    exact ⟨e.1, List.mem_map_of_mem he, hplace⟩
  · rintro ⟨y, hy, hplace⟩
    obtain ⟨e, he, rfl⟩ := List.mem_map.mp hy
    exact ⟨e, he, hplace⟩

theorem Redacts.allReadable (h : Redacts prim db db' u scope pending) (hread : AllReadable db u.address scope) :
    AllReadable db' u.address scope := by
  rw [AllReadable, h.ownMessages_eq]
  intro c hc
  obtain ⟨c₀, hc₀, rfl⟩ := List.mem_map.mp hc
  rcases h.fate (mem_ownMessages.mp hc₀).1 with ⟨-, heq⟩ | ⟨r, -, p, signature, -, -, hcontent⟩
  · dsimp only
    rw [heq]
    exact hread c₀ hc₀
  · dsimp only
    rw [hcontent]
    rfl

end round

/-! ## A round of the author -/

section author

variable {prim : Primitives} {cfg : Config} {db db₁ : Database} {u : User} {target : EraseTarget} {scope : Scope}
  {redactions : List (String × String)} {round : Round} {n : ℕ}

/-- What the signature of a round covers. -/
def erasedBody (prim : Primitives) (scope : Scope) (req : EraseRequest) : Except String String :=
  let keys := req.redactions.map (·.1)
  match scope with
  | none => accountDeletionMessage prim req.nonce .erase keys req.origin req.deployment
  | some key => conversationEraseMessage prim req.nonce key.1 key.2 keys req.origin req.deployment

/-- A request of the user's own session: its challenge waits, and it is signed for this server. -/
structure Genuine (prim : Primitives) (cfg : Config) (db : Database) (u : User) (target : EraseTarget)
    (scope : Scope) (redactions : List (String × String)) (round : Round) : Prop where
  target : round.target = target
  carries : round.request.redactions = redactions
  caller : getCurrentUser { db with nonces := round.challenges } round.token = .ok u
  challenge :
    (claimNonce { db with nonces := round.challenges } round.now u.address round.request.nonce).2 = true
  server : checkSignedForThisServer cfg round.request.origin round.request.deployment = .ok ()
  signed : ∃ message, erasedBody prim scope round.request = .ok message ∧
    prim.verifyIdentitySignature u.identityPublicKey message round.request.signature = true

/-- A round that redacted to `db₁` completes, or stops there. -/
structure Ends (a : Address) (scope : Scope) (db₁ : Database) (out : Database × EraseResponse) : Prop where
  done : leftToRedact db₁ a scope = 0 → out.2.status ≠ .redacting
  redacting : leftToRedact db₁ a scope ≠ 0 → out.1 = db₁ ∧ out.2.status = .redacting

theorem eraseAccount_ends (now : Time) (happly : applyRedactions prim db u redactions none = .ok (db₁, n))
    (hread : AllReadable db₁ u.address none) :
    ∃ out, eraseAccount prim db now u redactions = .ok out ∧ Ends u.address none db₁ out := by
  obtain ⟨out, hout⟩ := eraseAccount_isOk now happly hread
  refine ⟨out, hout, ?_⟩
  have hkeys := redactionKeys_eq_ok.mpr ⟨hread, rfl⟩
  have hleft := (length_redactionKeys hkeys).2
  rw [eraseAccount, happly, ok_bind] at hout
  simp only [hkeys, ok_bind] at hout
  rw [hleft] at hout
  split at hout
  · next hne =>
    obtain rfl := Except.ok.inj hout
    exact ⟨fun h => absurd h hne, fun _ => ⟨rfl, rfl⟩⟩
  · next heq =>
    obtain ⟨kept, -, hrest⟩ := bind_eq_ok.mp hout
    obtain ⟨db₂, -, hrest⟩ := bind_eq_ok.mp hrest
    obtain rfl := Except.ok.inj hrest
    exact ⟨fun _ => by simp, fun h => absurd h heq⟩

theorem eraseScope_ends {key : Kind × String}
    (happly : applyRedactions prim db u redactions (some key) = .ok (db₁, n))
    (hread : AllReadable db₁ u.address (some key)) :
    ∃ out, eraseScope prim db u key redactions = .ok out ∧ Ends u.address (some key) db₁ out := by
  obtain ⟨out, hout⟩ := eraseScope_isOk happly hread
  refine ⟨out, hout, ?_⟩
  have hkeys := redactionKeys_eq_ok.mpr ⟨hread, rfl⟩
  have hleft := (length_redactionKeys hkeys).2
  rw [eraseScope, happly, ok_bind] at hout
  simp only [hkeys, ok_bind] at hout
  rw [hleft] at hout
  split at hout
  · next hne =>
    obtain rfl := Except.ok.inj hout
    exact ⟨fun h => absurd h hne, fun _ => ⟨rfl, rfl⟩⟩
  · next heq =>
    obtain ⟨kept, -, hrest⟩ := bind_eq_ok.mp hout
    obtain ⟨⟨db₂, deleted⟩, -, hrest⟩ := bind_eq_ok.mp hrest
    obtain rfl := Except.ok.inj hrest
    exact ⟨fun _ => by simp, fun h => absurd h heq⟩

/-- Whatever redactions apply, the server accepts the author's round that carries them. -/
theorem postErase_genuine (h : Genuine prim cfg db u target scope redactions round) (hactive : u.active = true)
    (htarget : target.scope = .ok scope) (hnodup : (redactions.map (·.1)).Nodup)
    (hsize : redactions.length ≤ maxRedactionsPerDelete)
    (happly : ∀ d, SameContents db d → ∃ d₁ n, applyRedactions prim d u redactions scope = .ok (d₁, n) ∧
      AllReadable d₁ u.address scope) :
    ∃ d d₁ n out, SameContents db d ∧ applyRedactions prim d u redactions scope = .ok (d₁, n) ∧
      postErase prim cfg db round = (out.1, .ok out.2) ∧ Ends u.address scope d₁ out := by
  have hsame := claimed_sameContents db round u.address round.now round.request.nonce
  obtain ⟨d₁, n, hd₁, hread⟩ := happly _ hsame
  obtain ⟨message, hmessage, hver⟩ := h.signed
  rw [← h.carries] at hnodup hsize hd₁
  rw [← h.target] at htarget
  rw [postErase, if_neg (Nat.not_lt.mpr hsize), eraseRound]
  simp only [h.caller]
  cases hround : round.target with
  | account =>
    rw [hround] at htarget
    cases htarget
    obtain ⟨out, hout, hends⟩ := eraseAccount_ends round.now hd₁ hread
    have hauth := authorizeDeletion_eq_ok hnodup hactive h.server hmessage hver
    refine ⟨_, d₁, n, out, hsame, h.carries ▸ hd₁, ?_, hends⟩
    simp only [performDeletion, h.challenge, Bool.not_true, Bool.false_eq_true, if_false]
    exact transaction_eq_ok.mpr (bind_eq_ok.mpr ⟨(), hauth, hout⟩)
  | conversation kind path =>
    rw [hround] at htarget
    obtain ⟨key, hkey, rfl⟩ := map_eq_ok.mp htarget
    obtain ⟨out, hout, hends⟩ := eraseScope_ends hd₁ hread
    have hauth : authorizeErase prim cfg u key round.request = .ok () := by
      have hmessage' : conversationEraseMessage prim round.request.nonce key.1 key.2
          (round.request.redactions.map (·.1)) round.request.origin round.request.deployment = .ok message :=
        hmessage
      simp [authorizeErase, refuseIf, hnodup, h.server, hmessage', hver, bind, Except.bind]
    refine ⟨_, d₁, n, out, hsame, h.carries ▸ hd₁, ?_, hends⟩
    simp only [eraseConversation, hkey, h.challenge, Bool.not_true, Bool.false_eq_true, if_false]
    exact transaction_eq_ok.mpr (bind_eq_ok.mpr ⟨(), hauth, hout⟩)

/-- A round of the first listed rows: it completes where it holds them all, and leaves the rows after them. -/
theorem postErase_listed {entries : List (Carrier × String)} {k : ℕ} (hread : AllReadable db u.address scope)
    (hentries : entries.map Prod.fst = (listedCarriers db u.address scope).take k)
    (hsigned : ∀ e ∈ entries, SignedBy prim u e.1 e.2) (hk : k ≤ maxRedactionsPerDelete)
    (h : Genuine prim cfg db u target scope (redactionsOf entries) round) (hu : u ∈ db.users)
    (hactive : u.active = true) (htarget : target.scope = .ok scope) :
    ∃ out : Database × EraseResponse, postErase prim cfg db round = (out.1, .ok out.2) ∧
      (leftToRedact db u.address scope ≤ k → out.2.status ≠ .redacting) ∧
      (k < leftToRedact db u.address scope → out.2.status = .redacting ∧ u ∈ out.1.users ∧
        AllReadable out.1 u.address scope ∧
        listedCarriers out.1 u.address scope = (listedCarriers db u.address scope).drop k) := by
  have hlisted : ∀ e ∈ entries, e.1 ∈ listedCarriers db u.address scope := fun e he =>
    List.mem_of_mem_take (hentries ▸ List.mem_map_of_mem he)
  have hcongr : ∀ d, SameContents db d →
      AllReadable d u.address scope ∧ listedCarriers d u.address scope = listedCarriers db u.address scope := by
    intro d hd
    have hown : ownMessages d u.address scope = ownMessages db u.address scope := ownMessages_congr hd.store
    exact ⟨by rw [AllReadable, hown]; exact hread, by rw [listedCarriers, hown]; rfl⟩
  have happly : ∀ d, SameContents db d → ∃ d₁ pending,
      applyRedactions prim d u (redactionsOf entries) scope = .ok (d₁, entries.length) ∧
      Redacts prim d d₁ u scope pending ∧
      ∀ c, names pending c = true ↔ ∃ e ∈ entries, e.1.place = c.place := by
    intro d hd
    obtain ⟨hread', hlist⟩ := hcongr d hd
    exact applyRedactions_listed hread' fun e he => ⟨hlist ▸ hlisted e he, hsigned e he⟩
  have hlength : entries.length ≤ k := by
    rw [← List.length_map Prod.fst, hentries]
    exact List.length_take_le _ _
  have hkeys : ((redactionsOf entries).map (·.1)).Nodup := by
    have hplaces := (nodup_listed db u.address scope).sublist ((List.take_sublist k _).map Carrier.place)
    rw [← hentries, List.map_map] at hplaces
    have hnodup := hplaces.map (f := fun place : Kind × ℕ => redactionKey place.1 place.2)
      fun x y hxy => Prod.ext_iff.mpr (redactionKey_inj hxy)
    rw [List.map_map] at hnodup
    rw [redactionsOf, List.map_map]
    exact hnodup
  obtain ⟨d, d₁, n, out, hd, hd₁, hout, hends⟩ := postErase_genuine h hactive htarget hkeys
    (by rw [redactionsOf, List.length_map]; omega) fun d hd => by
      obtain ⟨d₁, pending, hd₁, hredacts, -⟩ := happly d hd
      exact ⟨d₁, _, hd₁, hredacts.allReadable (hcongr d hd).1⟩
  obtain ⟨d₁', pending, hd₁', hredacts, hnames⟩ := happly d hd
  obtain rfl : d₁' = d₁ := (Prod.mk.inj (Except.ok.inj (hd₁'.symm.trans hd₁))).1
  have hafter : listedCarriers d₁' u.address scope = (listedCarriers db u.address scope).drop k := by
    rw [← (hcongr d hd).2]
    refine listedCarriers_after_round ?_ hredacts hnames
    rw [(hcongr d hd).2]
    exact hentries
  have hleft : leftToRedact d₁' u.address scope = leftToRedact db u.address scope - k := by
    rw [← length_listedCarriers, hafter, List.length_drop, length_listedCarriers]
  refine ⟨out, hout, fun hle => hends.done (by omega), fun hlt => ?_⟩
  obtain ⟨heq, hstatus⟩ := hends.redacting (by omega)
  rw [heq]
  exact ⟨hstatus, by rw [hredacts.users, hd.users]; exact hu, hredacts.allReadable (hcongr d hd).1, hafter⟩

end author

end Kryptolog.Server
