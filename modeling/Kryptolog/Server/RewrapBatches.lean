import Kryptolog.Server.Release
import Kryptolog.Server.StaleWraps

/-! # Batches of replaced wraps

`PUT /account/encryption-key/wraps` replaces wrapped keys of the caller in a batch. `rewrap_batch`
says what an answer to it means: a refusal that nothing changed, and otherwise which wrap every row
holds. Where a batch names one row twice the later item is the one that stays.
-/

namespace Kryptolog.Server
set_option autoImplicit false

open Tables Json Fallible

/-! ## The wrap of a row -/

/-- The address that the wrap of a row is for, and the wrap. -/
def wrapAt (db : Database) : WrapKind × ℕ → Option (Address × Option Document)
  | (.grant, id) => (db.accessGrants.find? (·.id == id)).map fun g => (g.granteeAddress, some g.encryptedKey)
  | (.signer, id) => (db.signers.find? (·.id == id)).map fun s => (s.userAddress, s.encryptedKey)
  | (.recipient, id) => (db.recipients.find? (·.id == id)).map fun r => (r.userAddress, r.encryptedKey)

/-- The row is of the address, and the address may read it: the grant is live, or the workflow of
the row is one that it may read. -/
def MayReadWrap (db : Database) (now : Time) (a : Address) : WrapKind × ℕ → Prop
  | (.grant, id) => ∃ g ∈ db.accessGrants, g.id = id ∧ g.granteeAddress = a ∧ g.live now = true
  | (.signer, id) => ∃ s ∈ db.signers, s.id = id ∧ s.userAddress = a ∧
      ∃ w ∈ db.workflows, w.id = s.workflowId ∧ MayRead db w a
  | (.recipient, id) => ∃ r ∈ db.recipients, r.id = id ∧ r.userAddress = a ∧
      ∃ w ∈ db.workflows, w.id = r.workflowId ∧ MayRead db w a

/-- The item that a batch ends a row with. -/
def lastOf (items : List StaleWrap) (row : WrapKind × ℕ) : Option StaleWrap :=
  items.reverse.find? fun item => decide (item.row = row)

section

variable {db : Database} {now : Time} {a : Address} {items : List StaleWrap} {row : WrapKind × ℕ}

theorem readable_of_contains {id : ℕ} (h : ((readableWorkflows db a).map (·.id)).contains id = true) :
    ∃ w ∈ db.workflows, w.id = id ∧ MayRead db w a := by
  obtain ⟨w, hw, hid⟩ := List.mem_map.mp (List.contains_iff_mem.mp h)
  obtain ⟨hmem, hmay⟩ := mem_readableWorkflows.mp hw
  exact ⟨w, hmem, hid, hmay⟩

/-- What an address holds is its own, and it may read it. -/
theorem mayReadWrap_of_held (h : row ∈ (held db now a).map (·.row)) : MayReadWrap db now a row := by
  obtain ⟨w, hw, rfl⟩ := List.mem_map.mp h
  rw [held, List.mem_append, List.mem_append] at hw
  rcases hw with (hw | hw) | hw
  · obtain ⟨g, hg, rfl⟩ := List.mem_map.mp hw
    obtain ⟨hmem, htest⟩ := Table.mem_where'.mp hg
    rw [Bool.and_eq_true, beq_iff_eq] at htest
    exact ⟨g, hmem, rfl, htest.1, htest.2⟩
  · obtain ⟨s, hs, hmk⟩ := List.mem_filterMap.mp hw
    obtain ⟨d, -, rfl⟩ := Option.map_eq_some_iff.mp hmk
    obtain ⟨hmem, htest⟩ := Table.mem_where'.mp hs
    rw [Bool.and_eq_true, beq_iff_eq] at htest
    exact ⟨s, hmem, rfl, htest.1, readable_of_contains htest.2⟩
  · obtain ⟨r, hr, hmk⟩ := List.mem_filterMap.mp hw
    obtain ⟨d, -, rfl⟩ := Option.map_eq_some_iff.mp hmk
    obtain ⟨hmem, htest⟩ := Table.mem_where'.mp hr
    rw [Bool.and_eq_true, beq_iff_eq] at htest
    exact ⟨r, hmem, rfl, htest.1, readable_of_contains htest.2⟩

/-- The wrap of a row by its number, after the row with some number got a new one. -/
theorem wrap_update {ρ : Type} [Keyed ρ ℕ] (T : Serial ρ) (f : ρ → ρ)
    (hf : ∀ r, Keyed.key (f r) = Keyed.key r) (n id : ℕ) (wrap : ρ → Address × Option Document)
    (doc : Document) (hwrap : ∀ r, wrap (f r) = ((wrap r).1, some doc)) :
    ((T.update (fun r => Keyed.key r == n) f hf).find? fun r => Keyed.key r == id).map wrap =
      ((T.find? fun r => Keyed.key r == id).map wrap).map fun x =>
        if n = id then (x.1, some doc) else x := by
  have hfind := Table.find?_update T.toTable (fun r => Keyed.key r == n) (fun r => Keyed.key r == id) f hf
    fun r => by rw [hf]
  refine (congrArg (Option.map wrap) hfind).trans ?_
  cases h : T.toTable.find? fun r => Keyed.key r == id with
  | none => rfl
  | some r =>
    have hid : Keyed.key r = id := by simpa using (Table.find?_mem h).2
    by_cases hn : n = id
    · simp [hid, hn, hwrap]
    · have hn' : ¬ id = n := fun e => hn e.symm
      simp [hid, hn, hn']

/-- A replacement changes the wrap of its row, for the address that it was for. -/
theorem wrapAt_replaceWrap (db : Database) (item : StaleWrap) (row : WrapKind × ℕ) :
    wrapAt (replaceWrap db item) row = (wrapAt db row).map fun x =>
      if item.row = row then (x.1, some item.encryptedKey) else x := by
  obtain ⟨kind, n, doc⟩ := item
  obtain ⟨kind', id⟩ := row
  have hother : kind ≠ kind' → wrapAt (replaceWrap db ⟨kind, n, doc⟩) (kind', id) = wrapAt db (kind', id) := by
    intro hne
    cases kind <;> cases kind' <;> first | rfl | exact absurd rfl hne
  by_cases hkind : kind = kind'
  · subst hkind
    have hrow : ((⟨kind, n, doc⟩ : StaleWrap).row = (kind, id)) = (n = id) := by simp [StaleWrap.row]
    simp only [hrow]
    cases kind with
    | grant => exact wrap_update db.accessGrants _ _ n id _ doc fun _ => rfl
    | signer => exact wrap_update db.signers _ _ n id _ doc fun _ => rfl
    | recipient => exact wrap_update db.recipients _ _ n id _ doc fun _ => rfl
  · have hrow : ¬ (⟨kind, n, doc⟩ : StaleWrap).row = (kind', id) := fun h => hkind (Prod.mk.inj h).1
    rw [hother hkind]
    simp [hrow]

theorem lastOf_cons (item : StaleWrap) (items : List StaleWrap) (row : WrapKind × ℕ) :
    lastOf (item :: items) row =
      (lastOf items row).or (if item.row = row then some item else none) := by
  rw [lastOf, List.reverse_cons, List.find?_append]
  by_cases h : item.row = row <;> simp [lastOf, h]

theorem lastOf_eq_some {j : StaleWrap} (h : lastOf items row = some j) : j ∈ items ∧ j.row = row := by
  have htest := List.find?_some h
  exact ⟨List.mem_reverse.mp (List.mem_of_find?_eq_some h), of_decide_eq_true htest⟩

theorem exists_lastOf {i : StaleWrap} (hi : i ∈ items) : ∃ j, lastOf items i.row = some j := by
  have hsome : (lastOf items i.row).isSome = true :=
    List.find?_isSome.mpr ⟨i, List.mem_reverse.mpr hi, by simp⟩
  exact Option.isSome_iff_exists.mp hsome

theorem lastOf_of_not_mem (h : row ∉ items.map (·.row)) : lastOf items row = none := by
  refine List.find?_eq_none.mpr fun i hi hrow => h ?_
  exact of_decide_eq_true hrow ▸ List.mem_map_of_mem (List.mem_reverse.mp hi)

/-- After a batch every row holds the wrap of the last item that names it, or what it held. -/
theorem wrapAt_replaceWraps (db : Database) (items : List StaleWrap) (row : WrapKind × ℕ) :
    wrapAt (items.foldl replaceWrap db) row = (wrapAt db row).map fun x =>
      match lastOf items row with
      | some j => (x.1, some j.encryptedKey)
      | none => x := by
  induction items generalizing db with
  | nil => exact Option.map_id'.symm
  | cons item items ih =>
    rw [List.foldl_cons, ih, wrapAt_replaceWrap, Option.map_map, lastOf_cons]
    refine congrArg (Option.map · _) (funext fun x => ?_)
    cases hlast : lastOf items row with
    | some j => by_cases h : item.row = row <;> simp [h]
    | none => by_cases h : item.row = row <;> simp [h]

/-- Whom a held row's wrap is for. -/
theorem wrapAt_of_mayRead (h : MayReadWrap db now a row) : ∃ d, wrapAt db row = some (a, d) := by
  obtain ⟨kind, id⟩ := row
  cases kind with
  | grant =>
    obtain ⟨g, hg, rfl, rfl, -⟩ := h
    have hfind := Table.find?_key (T := db.accessGrants.toTable) hg
    exact ⟨some g.encryptedKey, by simp only [wrapAt]; exact congrArg (Option.map _) hfind⟩
  | signer =>
    obtain ⟨s, hs, rfl, rfl, -⟩ := h
    have hfind := Table.find?_key (T := db.signers.toTable) hs
    exact ⟨s.encryptedKey, by simp only [wrapAt]; exact congrArg (Option.map _) hfind⟩
  | recipient =>
    obtain ⟨r, hr, rfl, rfl, -⟩ := h
    have hfind := Table.find?_key (T := db.recipients.toTable) hr
    exact ⟨r.encryptedKey, by simp only [wrapAt]; exact congrArg (Option.map _) hfind⟩

theorem lastOf_of_split {before after : List StaleWrap} {i : StaleWrap}
    (h : i.row ∉ after.map (·.row)) : lastOf (before ++ i :: after) i.row = some i := by
  induction before with
  | nil => rw [List.nil_append, lastOf_cons, lastOf_of_not_mem h, Option.none_or, if_pos rfl]
  | cons item before ih => rw [List.cons_append, lastOf_cons, ih, Option.some_or]

end

/-! ## Batches -/

/-- A batch that was accepted: each of its items is a wrap for the caller's current key and names a
row of the caller, each row ends with the last item that names it, and no other row changed. -/
structure Rewrapped (db db' : Database) (now : Time) (caller : User) (items : List StaleWrap) : Prop where
  checked : ∀ i ∈ items, MayReadWrap db now caller.address i.row ∧
    isWrappedKeyFor i.encryptedKey caller.encryptionKeyId = .ok true
  row : ∀ i ∈ items, ∃ j ∈ items, j.row = i.row ∧
    wrapAt db' i.row = some (caller.address, some j.encryptedKey) ∧
    wrappedKeyId (some j.encryptedKey) = .ok caller.encryptionKeyId
  stored : ∀ before i after, items = before ++ i :: after → i.row ∉ after.map (·.row) →
    wrapAt db' i.row = some (caller.address, some i.encryptedKey)
  kept : ∀ row, row ∉ items.map (·.row) → wrapAt db' row = wrapAt db row

section

variable {db : Database} {now : Time} {caller : User} {items : List StaleWrap}

theorem rewrapped_of_ok {db' : Database} (h : rewrap db now caller items = .ok db') :
    Rewrapped db db' now caller items := by
  obtain ⟨-, hitems, rfl⟩ := rewrap_eq_ok.mp h
  have hchecked : ∀ i ∈ items, MayReadWrap db now caller.address i.row ∧
      isWrappedKeyFor i.encryptedKey caller.encryptionKeyId = .ok true := fun i hi =>
    ⟨mayReadWrap_of_held (hitems i hi).1, (hitems i hi).2⟩
  have hlast : ∀ i ∈ items, ∀ j, lastOf items i.row = some j →
      wrapAt (items.foldl replaceWrap db) i.row = some (caller.address, some j.encryptedKey) := by
    intro i hi j hj
    obtain ⟨d, hd⟩ := wrapAt_of_mayRead (hchecked i hi).1
    rw [wrapAt_replaceWraps, hd, hj]
    rfl
  refine ⟨hchecked, fun i hi => ?_, fun before i after hsplit hnot => ?_, fun row hrow => ?_⟩
  · obtain ⟨j, hj⟩ := exists_lastOf hi
    obtain ⟨hmem, hrow⟩ := lastOf_eq_some hj
    exact ⟨j, hmem, hrow, hlast i hi j hj, wrappedKeyId_of_isWrappedKeyFor (hchecked j hmem).2⟩
  · subst hsplit
    exact hlast i (List.mem_append_right _ List.mem_cons_self) i (lastOf_of_split hnot)
  · rw [wrapAt_replaceWraps, lastOf_of_not_mem hrow]
    exact Option.map_id'

/-- The wrap of a row is the caller's, or the batch leaves it. -/
theorem Rewrapped.frame {db' : Database} (h : Rewrapped db db' now caller items) (row : WrapKind × ℕ) :
    wrapAt db' row = wrapAt db row ∨ ∃ d, wrapAt db row = some (caller.address, d) := by
  by_cases hrow : row ∈ items.map (·.row)
  · obtain ⟨i, hi, rfl⟩ := List.mem_map.mp hrow
    exact .inr (wrapAt_of_mayRead (h.checked i hi).1)
  · exact .inl (h.kept row hrow)

end

/-- A batch is refused and nothing has changed, or it is accepted as a whole. In either case only
wraps of the caller are other than they were. -/
theorem rewrap_batch (prim : Primitives) (cfg : Config) (db : Database) (now : Time) (token : Token)
    (items : List StaleWrap) :
    ((∃ fault, (serve prim cfg db ⟨now, token, .rewrap items⟩).2 = .error fault) ∧
        (serve prim cfg db ⟨now, token, .rewrap items⟩).1 = db ∨
      (serve prim cfg db ⟨now, token, .rewrap items⟩).2 = .ok () ∧
        ∃ caller, getCurrentUser db token = .ok caller ∧
          Rewrapped db (serve prim cfg db ⟨now, token, .rewrap items⟩).1 now caller items) ∧
    ∀ row, wrapAt (serve prim cfg db ⟨now, token, .rewrap items⟩).1 row = wrapAt db row ∨
      ∃ caller, getCurrentUser db token = .ok caller ∧
        ∃ d, wrapAt db row = some (caller.address, d) := by
  cases hcaller : getCurrentUser db token with
  | error fault =>
    have hserve : serve prim cfg db ⟨now, token, .rewrap items⟩ = (db, .error fault) := by
      simp only [serve, hcaller]
    rw [hserve]
    exact ⟨.inl ⟨⟨fault, rfl⟩, rfl⟩, fun row => .inl rfl⟩
  | ok caller =>
    have hserve : serve prim cfg db ⟨now, token, .rewrap items⟩ =
        committed' db (rewrap db now caller items) := by
      simp only [serve, hcaller, endpoint]
    rw [hserve]
    cases h : rewrap db now caller items with
    | error fault => exact ⟨.inl ⟨⟨fault, rfl⟩, rfl⟩, fun row => .inl rfl⟩
    | ok db' =>
      have hdone := rewrapped_of_ok h
      exact ⟨.inr ⟨rfl, caller, rfl, hdone⟩, fun row =>
        (hdone.frame row).imp_right fun hown => ⟨caller, rfl, hown⟩⟩

/-! ## A row named twice -/

def sampleKid : String := String.ofList (List.replicate 32 '2')

def sampleBase64 (n : ℕ) : String := String.ofList (List.replicate n 'A')

/-- An envelope to the sample key around a text of `n` digits. -/
def sampleFields (n : ℕ) : Value :=
  .obj [(.uni "v", .int 5), (.uni "alg", .str (.uni kemEnvelopeAlg)), (.uni "kid", .str (.uni sampleKid)),
    (.uni "kem", .str (.uni (sampleBase64 1580))), (.uni "iv", .str (.uni (sampleBase64 16))),
    (.uni "content", .str (.uni (sampleBase64 n)))]

def sampleWrap (n : ℕ) : Document := .json (sampleFields n)

theorem b64Field_sampleBase64 {n : ℕ} (hn : 0 < n) (h4 : n % 4 = 0) :
    b64Field (some (.str (.uni (sampleBase64 n)))) = some (n * 3 / 4) := by
  have hne : List.replicate n 'A' ≠ [] := List.ne_nil_of_length_pos (by simpa using hn)
  have h := b64Field_digits hne (by simpa using h4) fun c hc => by
    rw [(List.mem_replicate.mp hc).2]
    rfl
  rwa [List.length_replicate] at h

theorem isWrappedKeyFor_sampleWrap {n : ℕ} (hn : 24 ≤ n) (h4 : n % 4 = 0) :
    isWrappedKeyFor (sampleWrap n) (some sampleKid) = .ok true := by
  have hkid : isValidKeyId sampleKid = true := matchHex_replicate 32 (by decide)
  have hv : (sampleFields n).get "v" = some (.int 5) := rfl
  have halg : (sampleFields n).get "alg" = some (.str (.uni kemEnvelopeAlg)) := rfl
  have hnamed : (sampleFields n).get "kid" = some (.str (.uni sampleKid)) := rfl
  have hkem : b64Field ((sampleFields n).get "kem") = some 1185 :=
    @b64Field_sampleBase64 1580 (by decide) (by decide)
  have hiv : b64Field ((sampleFields n).get "iv") = some 12 :=
    @b64Field_sampleBase64 16 (by decide) (by decide)
  have hcontent : b64Field ((sampleFields n).get "content") = some (n * 3 / 4) :=
    @b64Field_sampleBase64 n (by omega) h4
  have hnames : (sampleFields n).fields.map (·.1) = kemEnvelopeFields ++ [.uni "content"] := rfl
  have hextra : ((kemEnvelopeFields ++ [Str.uni "content"]).filter fun s =>
      !kemEnvelopeFields.contains s).dedup = [.uni "content"] := by decide
  have hall : kemEnvelopeFields.all (kemEnvelopeFields ++ [Str.uni "content"]).contains = true := by decide
  have hlong : 16 < n * 3 / 4 := by omega
  unfold isWrappedKeyFor sampleWrap
  simp only [hkid, Document.loads, hnames, hkem, hiv, hv, halg, hnamed, hextra, hall, hcontent]
  simp [Value.eqInt, Value.eqStr, formatVersion, hlong]

def sampleHolder : User :=
  ⟨lower "a", "a", none, none, none, some sampleKid, none, none, 0, none, false⟩

/-- A user with one grant. -/
def sampleHolding : Database where
  __ := Database.empty
  users := ⟨[sampleHolder], List.nodup_singleton _⟩
  accessGrants := ⟨⟨[⟨1, 1, lower "a", .notJson "", 0, none⟩], List.nodup_singleton _⟩, 2, by
    intro row hrow
    rw [List.mem_singleton.mp hrow]
    exact Nat.one_lt_two⟩

/-- Two items for one grant are both accepted, and one of the two is stored. -/
theorem not_every_item_stored : ¬ ∀ (prim : Primitives) (cfg : Config) (db : Database) (now : Time)
    (token : Token) (items : List StaleWrap),
      (∃ fault, (serve prim cfg db ⟨now, token, .rewrap items⟩).2 = .error fault) ∨
      ∀ i ∈ items, ∃ caller, getCurrentUser db token = .ok caller ∧
        wrapAt (serve prim cfg db ⟨now, token, .rewrap items⟩).1 i.row =
          some (caller.address, some i.encryptedKey) := by
  intro h
  have hcaller : getCurrentUser sampleHolding ⟨"a", 0⟩ = .ok sampleHolder := rfl
  have hrewrap : rewrap sampleHolding 0 sampleHolder
      [⟨.grant, 1, sampleWrap 24⟩, ⟨.grant, 1, sampleWrap 28⟩] =
      .ok (([⟨.grant, 1, sampleWrap 24⟩, ⟨.grant, 1, sampleWrap 28⟩] : List StaleWrap).foldl
        replaceWrap sampleHolding) := by
    refine rewrap_eq_ok.mpr ⟨rfl, ?_, rfl⟩
    have hheld : ((WrapKind.grant, 1) : WrapKind × ℕ) ∈ (held sampleHolding 0 sampleHolder.address).map (·.row) :=
      List.mem_cons_self
    rw [List.forall_mem_cons, List.forall_mem_singleton]
    exact ⟨⟨hheld, isWrappedKeyFor_sampleWrap (by decide) (by decide)⟩, hheld,
      isWrappedKeyFor_sampleWrap (by decide) (by decide)⟩
  have hserve : serve samplePrimitives sampleConfig sampleHolding
      ⟨0, ⟨"a", 0⟩, .rewrap [⟨.grant, 1, sampleWrap 24⟩, ⟨.grant, 1, sampleWrap 28⟩]⟩ =
      (([⟨.grant, 1, sampleWrap 24⟩, ⟨.grant, 1, sampleWrap 28⟩] : List StaleWrap).foldl
        replaceWrap sampleHolding, .ok ()) := by
    simp only [serve, hcaller, endpoint, hrewrap]
    rfl
  rcases h samplePrimitives sampleConfig sampleHolding 0 ⟨"a", 0⟩
    [⟨.grant, 1, sampleWrap 24⟩, ⟨.grant, 1, sampleWrap 28⟩] with ⟨fault, hfault⟩ | hall
  · rw [hserve] at hfault
    cases hfault
  · obtain ⟨caller, hcaller', hstored⟩ := hall ⟨.grant, 1, sampleWrap 24⟩ List.mem_cons_self
    rw [hserve] at hstored
    have hlast : wrapAt (([⟨.grant, 1, sampleWrap 24⟩, ⟨.grant, 1, sampleWrap 28⟩] : List StaleWrap).foldl
        replaceWrap sampleHolding) (.grant, 1) = some (lower "a", some (sampleWrap 28)) := rfl
    have hsame : some (lower "a", some (sampleWrap 28)) = some (caller.address, some (sampleWrap 24)) :=
      hlast.symm.trans hstored
    have hfields : sampleFields 28 = sampleFields 24 :=
      Document.json.inj (Option.some.inj (Prod.mk.inj (Option.some.inj hsame)).2)
    have hsize : some 21 = some 18 :=
      (@b64Field_sampleBase64 28 (by decide) (by decide)).symm.trans
        ((congrArg (fun v => b64Field (v.get "content")) hfields).trans
          (@b64Field_sampleBase64 24 (by decide) (by decide)))
    cases hsize

end Kryptolog.Server
