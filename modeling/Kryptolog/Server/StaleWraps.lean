import Kryptolog.Server.KeyRotation

/-! # Pages of stale wraps

What a page of `stale_wraps` is, and what `rewrap` makes of the wraps that an address holds.
-/

namespace Kryptolog.Server
set_option autoImplicit false

open Tables Json Fallible

/-- `GET /account/encryption-key/stale-wraps`. -/
def listStaleWraps (db : Database) (now : Time) (token : Token) (limit offset : ℕ) :
    Except Fault (List StaleWrap) := do
  let caller ← getCurrentUser db token
  staleWraps db now caller limit offset

/-- `PUT /account/encryption-key/wraps`. -/
def rewrapKeys (db : Database) (now : Time) (token : Token) (items : List StaleWrap) :
    Except Fault Database := do
  let caller ← getCurrentUser db token
  rewrap db now caller items

/-- The row of a wrap. -/
def StaleWrap.row (w : StaleWrap) : WrapKind × ℕ := (w.kind, w.id)

/-- The scanner gets through the text of the wrap. -/
def StaleWrap.Readable (w : StaleWrap) : Prop := ∃ kid, wrappedKeyId (some w.encryptedKey) = .ok kid

/-- The wrap does not name the key `kid`. -/
def StaleWrap.isStale (kid : Option String) (w : StaleWrap) : Bool :=
  match wrappedKeyId (some w.encryptedKey) with
  | .ok named => named != kid
  | .error _ => true

section pages

variable {kid : Option String} {rows page : List StaleWrap} {limit offset : ℕ}

theorem stalePage_cons (row : StaleWrap) (rows : List StaleWrap) (named : Option String)
    (h : wrappedKeyId (some row.encryptedKey) = .ok named) :
    stalePage kid (row :: rows) limit offset =
      if named == kid then stalePage kid rows limit offset
      else match offset, limit with
        | skip + 1, _ => stalePage kid rows limit skip
        | 0, more + 2 => do .ok (row :: (← stalePage kid rows (more + 1) 0))
        | 0, _ => .ok [row] := by
  rw [stalePage.eq_def]
  change (wrappedKeyId (some row.encryptedKey) >>= _) = _
  rw [h]
  rfl

/-- A page is a part of the stale wraps, and a short page has seen every wrap. -/
theorem stalePage_eq_ok (hlimit : 0 < limit) (h : stalePage kid rows limit offset = .ok page) :
    page = ((rows.filter (·.isStale kid)).drop offset).take limit ∧ (∀ w ∈ page, w.Readable) ∧
      (page.length < limit → ∀ w ∈ rows, w.Readable) := by
  induction rows generalizing limit offset page with
  | nil =>
    cases h
    exact ⟨by simp, fun w hw => absurd hw List.not_mem_nil, fun _ w hw => absurd hw List.not_mem_nil⟩
  | cons row rows ih =>
    cases hnamed : wrappedKeyId (some row.encryptedKey) with
    | error e =>
      rw [stalePage.eq_def] at h
      simp only [hnamed] at h
      cases h
    | ok named =>
      have hrow : row.Readable := ⟨named, hnamed⟩
      have hall : (∀ w ∈ rows, w.Readable) → ∀ w ∈ row :: rows, w.Readable := fun hrows =>
        List.forall_mem_cons.mpr ⟨hrow, hrows⟩
      rw [stalePage_cons row rows named hnamed] at h
      by_cases hcurrent : (named == kid) = true
      · rw [if_pos hcurrent] at h
        have hnot : row.isStale kid = false := by
          rw [StaleWrap.isStale, hnamed]
          simpa using hcurrent
        obtain ⟨hpage, hread, hshort⟩ := ih hlimit h
        rw [List.filter_cons, if_neg (by simp [hnot])]
        exact ⟨hpage, hread, fun hlt => hall (hshort hlt)⟩
      · rw [if_neg hcurrent] at h
        have hstale : row.isStale kid = true := by
          rw [StaleWrap.isStale, hnamed]
          simpa using hcurrent
        rw [List.filter_cons, if_pos hstale]
        cases offset with
        | succ skip =>
          obtain ⟨hpage, hread, hshort⟩ := ih hlimit h
          exact ⟨hpage, hread, fun hlt => hall (hshort hlt)⟩
        | zero =>
          match limit, hlimit, h with
          | 1, _, h =>
            cases h
            refine ⟨rfl, fun w hw => ?_, fun hlt => absurd hlt (Nat.lt_irrefl 1)⟩
            exact List.mem_singleton.mp hw ▸ hrow
          | more + 2, _, h =>
            obtain ⟨rest, hrest, hpage⟩ := bind_eq_ok.mp h
            obtain rfl := Except.ok.inj hpage
            obtain ⟨hrest', hread, hshort⟩ := ih (Nat.succ_pos more) hrest
            refine ⟨?_, List.forall_mem_cons.mpr ⟨hrow, hread⟩,
              fun hlt => hall (hshort (Nat.lt_of_succ_lt_succ hlt))⟩
            rw [List.drop_zero, List.take_succ_cons, hrest', List.drop_zero]

theorem readable_of_not_isStale {w : StaleWrap} (h : w.isStale kid = false) : w.Readable := by
  unfold StaleWrap.isStale at h
  split at h
  · next named hnamed => exact ⟨named, hnamed⟩
  · cases h

theorem stalePage_ok (h : ∀ w ∈ rows, w.Readable) : ∃ page, stalePage kid rows limit offset = .ok page := by
  induction rows generalizing limit offset with
  | nil => exact ⟨[], by rw [stalePage]⟩
  | cons row rows ih =>
    obtain ⟨⟨named, hnamed⟩, hrows⟩ := List.forall_mem_cons.mp h
    rw [stalePage_cons row rows named hnamed]
    split
    · exact ih hrows
    · split
      · exact ih hrows
      · next more =>
        obtain ⟨rest, hrest⟩ := @ih (more + 1) 0 hrows
        exact ⟨row :: rest, by rw [hrest]; rfl⟩
      · exact ⟨[row], rfl⟩

end pages

/-! ## Replaced wraps -/

/-- The wrap after one replacement. -/
def StaleWrap.replacedBy (w item : StaleWrap) : StaleWrap := if w.row = item.row then item else w

/-- The wrap after all of them. -/
def StaleWrap.after (w : StaleWrap) (items : List StaleWrap) : StaleWrap :=
  (items.find? fun item => decide (item.row = w.row)).getD w

section replaced

variable {db : Database} {now : Time} {a : Address} {item w : StaleWrap} {items : List StaleWrap}

theorem StaleWrap.row_replacedBy : (w.replacedBy item).row = w.row := by
  unfold replacedBy
  split
  · next h => exact h.symm
  · rfl

/-- A column of the selected rows that an update keeps. -/
theorem map_where'_update {ρ γ : Type} [Keyed ρ ℕ] (T : Serial ρ) (p q : ρ → Bool) (f : ρ → ρ)
    (hf : ∀ r, Keyed.key (f r) = Keyed.key r) (hq : ∀ r, q (f r) = q r) (g : ρ → γ)
    (hg : ∀ r, g (f r) = g r) :
    ((T.update p f hf).toTable.where' q).map g = (T.toTable.where' q).map g := by
  have hrows := Table.where'_update T.toTable p q f hf hq
  change ((T.toTable.update p f hf).where' q).map g = _
  rw [hrows, List.map_map]
  refine List.map_congr_left fun r _ => ?_
  simp only [Function.comp_apply]
  split
  · exact hg r
  · rfl

theorem readableWorkflows_replaceWrap : readableWorkflows (replaceWrap db item) a = readableWorkflows db a := by
  obtain ⟨kind, id, doc⟩ := item
  have hsigners : ((replaceWrap db ⟨kind, id, doc⟩).signers.where' (·.userAddress == a)).map
      (·.workflowId) = (db.signers.where' (·.userAddress == a)).map (·.workflowId) := by
    cases kind with
    | signer => refine map_where'_update db.signers (·.id == id) _ _ _ ?_ _ ?_ <;> exact fun _ => rfl
    | grant | recipient => rfl
  have hrecipients : ((replaceWrap db ⟨kind, id, doc⟩).recipients.where' (·.userAddress == a)).map
      (·.workflowId) = (db.recipients.where' (·.userAddress == a)).map (·.workflowId) := by
    cases kind with
    | recipient => refine map_where'_update db.recipients (·.id == id) _ _ _ ?_ _ ?_ <;> exact fun _ => rfl
    | grant | signer => rfl
  have hworkflows : (replaceWrap db ⟨kind, id, doc⟩).workflows = db.workflows := by
    cases kind <;> rfl
  simp only [readableWorkflows, hsigners, hrecipients, hworkflows]

/-- The wraps of a table, of which an update replaces the one with the id. -/
theorem filterMap_where'_update {ρ : Type} [Keyed ρ ℕ] (T : Serial ρ) (p q : ρ → Bool) (f : ρ → ρ)
    (hf : ∀ r, Keyed.key (f r) = Keyed.key r) (hq : ∀ r, q (f r) = q r) (mk : ρ → Option StaleWrap)
    (hmk : ∀ r ∈ T, q r = true → mk (if p r then f r else r) = (mk r).map (·.replacedBy item)) :
    ((T.update p f hf).toTable.where' q).filterMap mk =
      ((T.toTable.where' q).filterMap mk).map (·.replacedBy item) := by
  have hrows := Table.where'_update T.toTable p q f hf hq
  change ((T.toTable.update p f hf).where' q).filterMap mk = _
  rw [hrows, List.filterMap_map, List.map_filterMap]
  refine List.filterMap_congr fun r hr => ?_
  obtain ⟨hmem, hqr⟩ := Table.mem_where'.mp hr
  exact hmk r hmem hqr

/-- The wrap of a row with a key, before and after a replacement. -/
theorem map_replacedBy {kind : WrapKind} {n id : ℕ} {key : Option Document} {doc : Document}
    (hkey : n = id → key.isSome = true) :
    (if n == id then some doc else key).map (⟨kind, n, ·⟩) =
      (key.map (⟨kind, n, ·⟩)).map (StaleWrap.replacedBy · ⟨kind, id, doc⟩) := by
  by_cases hid : n = id
  · obtain ⟨d, hd⟩ := Option.isSome_iff_exists.mp (hkey hid)
    subst hid
    simp [hd, StaleWrap.replacedBy, StaleWrap.row]
  · cases key with
    | none => simp [hid]
    | some d => simp [hid, StaleWrap.replacedBy, StaleWrap.row]

theorem signer_of_held {id : ℕ} (h : (WrapKind.signer, id) ∈ (held db now a).map (·.row)) :
    ∃ s ∈ db.signers, s.id = id ∧ s.encryptedKey.isSome = true := by
  obtain ⟨w, hw, hrow⟩ := List.mem_map.mp h
  obtain ⟨hkind, hid⟩ := Prod.mk.inj hrow
  rw [held, List.mem_append, List.mem_append] at hw
  rcases hw with (hw | hw) | hw
  · obtain ⟨g, -, rfl⟩ := List.mem_map.mp hw
    cases hkind
  · obtain ⟨s, hs, hmk⟩ := List.mem_filterMap.mp hw
    obtain ⟨d, hd, rfl⟩ := Option.map_eq_some_iff.mp hmk
    exact ⟨s, (Table.mem_where'.mp hs).1, hid, Option.isSome_iff_exists.mpr ⟨d, hd⟩⟩
  · obtain ⟨r, -, hmk⟩ := List.mem_filterMap.mp hw
    obtain ⟨d, -, rfl⟩ := Option.map_eq_some_iff.mp hmk
    cases hkind

theorem recipient_of_held {id : ℕ} (h : (WrapKind.recipient, id) ∈ (held db now a).map (·.row)) :
    ∃ r ∈ db.recipients, r.id = id ∧ r.encryptedKey.isSome = true := by
  obtain ⟨w, hw, hrow⟩ := List.mem_map.mp h
  obtain ⟨hkind, hid⟩ := Prod.mk.inj hrow
  rw [held, List.mem_append, List.mem_append] at hw
  rcases hw with (hw | hw) | hw
  · obtain ⟨g, -, rfl⟩ := List.mem_map.mp hw
    cases hkind
  · obtain ⟨s, -, hmk⟩ := List.mem_filterMap.mp hw
    obtain ⟨d, -, rfl⟩ := Option.map_eq_some_iff.mp hmk
    cases hkind
  · obtain ⟨r, hr, hmk⟩ := List.mem_filterMap.mp hw
    obtain ⟨d, hd, rfl⟩ := Option.map_eq_some_iff.mp hmk
    exact ⟨r, (Table.mem_where'.mp hr).1, hid, Option.isSome_iff_exists.mpr ⟨d, hd⟩⟩

theorem map_replacedBy_other {ws : List StaleWrap} (h : ∀ w ∈ ws, w.kind ≠ item.kind) :
    ws.map (·.replacedBy item) = ws := by
  refine (List.map_congr_left fun w hw => ?_).trans (List.map_id ws)
  rw [StaleWrap.replacedBy, if_neg fun hrow => h w hw (congrArg Prod.fst hrow)]
  rfl

theorem kind_heldGrants (hw : w ∈ heldGrants db now a) : w.kind = .grant := by
  obtain ⟨g, -, rfl⟩ := List.mem_map.mp hw
  rfl

theorem kind_heldSigners (hw : w ∈ heldSigners db a) : w.kind = .signer := by
  obtain ⟨s, -, hmk⟩ := List.mem_filterMap.mp hw
  obtain ⟨d, -, rfl⟩ := Option.map_eq_some_iff.mp hmk
  rfl

theorem kind_heldRecipients (hw : w ∈ heldRecipients db a) : w.kind = .recipient := by
  obtain ⟨r, -, hmk⟩ := List.mem_filterMap.mp hw
  obtain ⟨d, -, rfl⟩ := Option.map_eq_some_iff.mp hmk
  rfl

theorem heldGrants_replaceWrap : heldGrants (replaceWrap db item) now a =
    (heldGrants db now a).map (·.replacedBy item) := by
  obtain ⟨kind, id, doc⟩ := item
  cases kind with
  | grant =>
    have hmap : ∀ gs : List AccessGrant, gs.map (fun g => (⟨.grant, g.id, g.encryptedKey⟩ : StaleWrap)) =
        gs.filterMap fun g => (some g.encryptedKey).map (⟨.grant, g.id, ·⟩) := fun gs =>
      List.filterMap_eq_map.symm ▸ rfl
    rw [heldGrants, heldGrants, hmap, hmap]
    refine filterMap_where'_update db.accessGrants (·.id == id) _ _ _ ?_ _ fun g _ _ => ?_
    · exact fun _ => rfl
    · rw [← map_replacedBy fun _ => rfl]
      split <;> rfl
  | signer | recipient =>
    refine (map_replacedBy_other fun w hw => ?_).symm
    rw [kind_heldGrants hw]
    exact fun h => by cases h

theorem heldSigners_replaceWrap (hitem : item.row ∈ (held db now a).map (·.row)) :
    heldSigners (replaceWrap db item) a = (heldSigners db a).map (·.replacedBy item) := by
  rw [heldSigners, readableWorkflows_replaceWrap]
  obtain ⟨kind, id, doc⟩ := item
  cases kind with
  | signer =>
    refine filterMap_where'_update db.signers (·.id == id) _ _ _ ?_ _ fun s hs _ => ?_
    · exact fun _ => rfl
    · have hkey : s.id = id → s.encryptedKey.isSome = true := by
        obtain ⟨s', hs', hid', hsome⟩ := signer_of_held hitem
        exact fun hid => Serial.eq_of_key hs' hs (hid'.trans hid.symm) ▸ hsome
      rw [← map_replacedBy hkey]
      split <;> rfl
  | grant | recipient =>
    refine (map_replacedBy_other fun w hw => ?_).symm
    rw [kind_heldSigners hw]
    exact fun h => by cases h

theorem heldRecipients_replaceWrap (hitem : item.row ∈ (held db now a).map (·.row)) :
    heldRecipients (replaceWrap db item) a = (heldRecipients db a).map (·.replacedBy item) := by
  rw [heldRecipients, readableWorkflows_replaceWrap]
  obtain ⟨kind, id, doc⟩ := item
  cases kind with
  | recipient =>
    refine filterMap_where'_update db.recipients (·.id == id) _ _ _ ?_ _ fun r hr _ => ?_
    · exact fun _ => rfl
    · have hkey : r.id = id → r.encryptedKey.isSome = true := by
        obtain ⟨r', hr', hid', hsome⟩ := recipient_of_held hitem
        exact fun hid => Serial.eq_of_key hr' hr (hid'.trans hid.symm) ▸ hsome
      rw [← map_replacedBy hkey]
      split <;> rfl
  | grant | signer =>
    refine (map_replacedBy_other fun w hw => ?_).symm
    rw [kind_heldRecipients hw]
    exact fun h => by cases h

/-- The same wraps are held, one of them with another key. -/
theorem held_replaceWrap (hitem : item.row ∈ (held db now a).map (·.row)) :
    held (replaceWrap db item) now a = (held db now a).map (·.replacedBy item) := by
  rw [held, heldGrants_replaceWrap, heldSigners_replaceWrap hitem, heldRecipients_replaceWrap hitem, held,
    List.map_append, List.map_append]

theorem map_row_replacedBy (ws : List StaleWrap) :
    (ws.map (·.replacedBy item)).map (·.row) = ws.map (·.row) := by
  rw [List.map_map]
  exact List.map_congr_left fun w _ => StaleWrap.row_replacedBy

theorem after_of_mem (hnodup : (items.map (·.row)).Nodup) (hitem : item ∈ items) (hrow : item.row = w.row) :
    w.after items = item := by
  induction items with
  | nil => cases hitem
  | cons i items ih =>
    rw [List.map_cons, List.nodup_cons] at hnodup
    rcases List.mem_cons.mp hitem with rfl | hitem
    · simp [StaleWrap.after, hrow]
    · have hne : i.row ≠ w.row := fun h => hnodup.1 (h.trans hrow.symm ▸ List.mem_map_of_mem hitem)
      rw [← ih hnodup.2 hitem]
      simp [StaleWrap.after, hne]

theorem after_of_not_mem (h : w.row ∉ items.map (·.row)) : w.after items = w := by
  rw [StaleWrap.after, List.find?_eq_none.mpr, Option.getD_none]
  intro i hi hrow
  exact h (of_decide_eq_true hrow ▸ List.mem_map_of_mem hi)

theorem after_cons (hnew : item.row ∉ items.map (·.row)) :
    w.after (item :: items) = (w.replacedBy item).after items := by
  have hnone : item.after items = item := after_of_not_mem hnew
  unfold StaleWrap.replacedBy
  by_cases hrow : item.row = w.row
  · rw [if_pos hrow.symm, hnone]
    simp [StaleWrap.after, hrow]
  · rw [if_neg fun h => hrow h.symm]
    simp [StaleWrap.after, hrow]

/-- The same wraps are held after replacements of different rows. -/
theorem held_replaceWraps (hitems : ∀ i ∈ items, i.row ∈ (held db now a).map (·.row))
    (hnodup : (items.map (·.row)).Nodup) :
    held (items.foldl replaceWrap db) now a = (held db now a).map (·.after items) := by
  induction items generalizing db with
  | nil =>
    refine ((List.map_congr_left fun w _ => ?_).trans (List.map_id _)).symm
    rfl
  | cons item items ih =>
    obtain ⟨hitem, hrest⟩ := List.forall_mem_cons.mp hitems
    rw [List.map_cons, List.nodup_cons] at hnodup
    have hheld := held_replaceWrap hitem
    rw [List.foldl_cons, ih ?_ hnodup.2, hheld, List.map_map]
    · exact List.map_congr_left fun w _ => (after_cons hnodup.1).symm
    · rw [hheld, map_row_replacedBy]
      exact hrest

theorem nodup_filterMap_row {ρ : Type} {key : ρ → ℕ} {mk : ρ → Option StaleWrap} {kind : WrapKind}
    (hmk : ∀ r w, mk r = some w → w.row = (kind, key r)) {rows : List ρ} (h : (rows.map key).Nodup) :
    ((rows.filterMap mk).map (·.row)).Nodup := by
  induction rows with
  | nil => exact List.nodup_nil
  | cons r rows ih =>
    rw [List.map_cons, List.nodup_cons] at h
    rw [List.filterMap_cons]
    cases hr : mk r with
    | none => exact ih h.2
    | some w =>
      refine List.nodup_cons.mpr ⟨fun hmem => h.1 ?_, ih h.2⟩
      obtain ⟨w', hw', hrow⟩ := List.mem_map.mp hmem
      obtain ⟨r', hr', hmk'⟩ := List.mem_filterMap.mp hw'
      have hkey : (kind, key r') = (kind, key r) := (hmk r' w' hmk').symm.trans (hrow.trans (hmk r w hr))
      exact (Prod.mk.inj hkey).2 ▸ List.mem_map_of_mem hr'

/-- An address holds one wrap of a row. -/
theorem nodup_held : ((held db now a).map (·.row)).Nodup := by
  have hkeys : ∀ {ρ : Type} [Keyed ρ ℕ] (T : Serial ρ) (q : ρ → Bool),
      ((T.toTable.where' q).map Keyed.key).Nodup := fun T q =>
    T.toTable.nodup.sublist (List.filter_sublist.map _)
  have hgrants : ((heldGrants db now a).map (·.row)).Nodup := by
    have hids : ((liveGrantsOf db now a).map (·.id)).Nodup := hkeys db.accessGrants _
    have hrows : (heldGrants db now a).map (·.row) = ((liveGrantsOf db now a).map (·.id)).map (WrapKind.grant, ·) := by
      rw [heldGrants, List.map_map, List.map_map]
      rfl
    rw [hrows]
    exact hids.map fun _ _ h => (Prod.mk.inj h).2
  have hsigners : ((heldSigners db a).map (·.row)).Nodup := by
    refine nodup_filterMap_row (fun s w hw => (?_ : w.row = (.signer, s.id))) (hkeys db.signers _)
    obtain ⟨d, -, rfl⟩ := Option.map_eq_some_iff.mp hw
    rfl
  have hrecipients : ((heldRecipients db a).map (·.row)).Nodup := by
    refine nodup_filterMap_row (fun r w hw => (?_ : w.row = (.recipient, r.id))) (hkeys db.recipients _)
    obtain ⟨d, -, rfl⟩ := Option.map_eq_some_iff.mp hw
    rfl
  have hkind : ∀ {ws : List StaleWrap} {kind : WrapKind}, (∀ w ∈ ws, w.kind = kind) →
      ∀ x ∈ ws.map (·.row), x.1 = kind := by
    intro ws kind h x hx
    obtain ⟨w, hw, rfl⟩ := List.mem_map.mp hx
    exact h w hw
  have hfirst := hkind fun w (hw : w ∈ heldGrants db now a) => kind_heldGrants hw
  have hsecond := hkind fun w (hw : w ∈ heldSigners db a) => kind_heldSigners hw
  have hthird := hkind fun w (hw : w ∈ heldRecipients db a) => kind_heldRecipients hw
  rw [held, List.map_append, List.map_append, List.nodup_append, List.nodup_append]
  refine ⟨⟨hgrants, hsigners, fun x hx y hy hxy => ?_⟩, hrecipients, fun x hx y hy hxy => ?_⟩
  · have hsame := (hfirst x hx).symm.trans ((congrArg Prod.fst hxy).trans (hsecond y hy))
    cases hsame
  · rcases List.mem_append.mp hx with hx | hx
    · have hsame := (hfirst x hx).symm.trans ((congrArg Prod.fst hxy).trans (hthird y hy))
      cases hsame
    · have hsame := (hsecond x hx).symm.trans ((congrArg Prod.fst hxy).trans (hthird y hy))
      cases hsame

/-- A batch passes when each of its items names a wrap that is held and is a wrap for the current key. -/
theorem rewrap_eq_ok {caller : User} {db' : Database} : rewrap db now caller items = .ok db' ↔
    caller.active = true ∧ (∀ i ∈ items, i.row ∈ (held db now caller.address).map (·.row) ∧
      isWrappedKeyFor i.encryptedKey caller.encryptionKeyId = .ok true) ∧
    db' = items.foldl replaceWrap db := by
  have hcheck : ∀ i, checkRewrap db now caller i = .ok () ↔
      i.row ∈ (held db now caller.address).map (·.row) ∧
        isWrappedKeyFor i.encryptedKey caller.encryptionKeyId = .ok true := by
    intro i
    simp only [checkRewrap, bind_eq_ok, refuseIf_eq_ok, Bool.not_eq_false']
    constructor
    · rintro ⟨_, hany, b, hb, rfl⟩
      obtain ⟨w, hw, hrow⟩ := List.any_eq_true.mp hany
      rw [Bool.and_eq_true, beq_iff_eq, beq_iff_eq] at hrow
      exact ⟨List.mem_map.mpr ⟨w, hw, Prod.ext hrow.1 hrow.2⟩, hb⟩
    · rintro ⟨hmem, hwrapped⟩
      obtain ⟨w, hw, hrow⟩ := List.mem_map.mp hmem
      obtain ⟨hkind, hid⟩ := Prod.mk.inj hrow
      exact ⟨(), List.any_eq_true.mpr ⟨w, hw, by simp [hkind, hid]⟩, true, hwrapped, rfl⟩
  simp only [rewrap, bind_eq_ok, refuseIf_eq_ok, Bool.not_eq_false']
  constructor
  · rintro ⟨_, hactive, _, hitems, hdb⟩
    exact ⟨hactive, fun i hi => (hcheck i).mp (forM_eq_ok.mp hitems i hi), (Except.ok.inj hdb).symm⟩
  · rintro ⟨hactive, hitems, rfl⟩
    exact ⟨(), hactive, (), forM_eq_ok.mpr fun i hi => (hcheck i).mpr (hitems i hi), rfl⟩

theorem active_of_getCurrentUser {token : Token} {caller : User} (h : getCurrentUser db token = .ok caller) :
    caller.active = true := by
  unfold getCurrentUser at h
  split at h
  · next u hu =>
    obtain rfl := Except.ok.inj h
    have hfiltered := (Option.filter_eq_some_iff.mp hu).2
    rw [Bool.and_eq_true] at hfiltered
    exact hfiltered.1
  · cases h

theorem getCurrentUser_replaceWraps {token : Token} :
    getCurrentUser (items.foldl replaceWrap db) token = getCurrentUser db token := by
  induction items generalizing db with
  | nil => rfl
  | cons item items ih =>
    have husers : getCurrentUser (replaceWrap db item) token = getCurrentUser db token := by
      obtain ⟨kind, id, doc⟩ := item
      cases kind <;> rfl
    rw [List.foldl_cons, ih, husers]

/-- A wrap for a key names the key. -/
theorem wrappedKeyId_of_isWrappedKeyFor {d : Document} {kid : Option String}
    (h : isWrappedKeyFor d kid = .ok true) : wrappedKeyId (some d) = .ok kid := by
  cases kid with
  | none => cases h
  | some kid =>
    unfold isWrappedKeyFor at h
    by_cases hvalid : isValidKeyId kid = true
    · cases d with
      | notJson raw => simp [hvalid, Document.loads] at h
      | tooDeep raw => simp [hvalid, Document.loads] at h
      | json wrap =>
        have hkid : (wrap.get "kid").any (·.eqStr kid) = true := by
          simp only [hvalid, Document.loads, Bool.not_true, Bool.false_eq_true, if_false] at h
          split at h
          · have h := Except.ok.inj h
            simp only [Bool.and_eq_true] at h
            tauto
          · split at h
            · have h := Except.ok.inj h
              simp only [Bool.and_eq_true] at h
              tauto
            · cases h
        obtain ⟨v, hget, hv⟩ := (Option.any_eq_true _ _).mp hkid
        rw [Value.eqStr_iff] at hv
        subst hv
        simp only [wrappedKeyId, Option.map_some, Document.loads, hget, hvalid, if_true]
    · simp [hvalid] at h

theorem isStale_of_isWrappedKeyFor {kid : Option String} (h : isWrappedKeyFor w.encryptedKey kid = .ok true) :
    w.isStale kid = false := by
  rw [StaleWrap.isStale, wrappedKeyId_of_isWrappedKeyFor h]
  exact bne_self_eq_false kid

end replaced

end Kryptolog.Server
