import Kryptolog.Server.EraseManifest
import Kryptolog.Server.Retention

/-! # Rows that the parser gives up on

The walks of a retention pass and of an erase parse every content that they meet, and each catches what
`json.loads` raises for a text that is no JSON. `blanked` puts such a text in the place of one that nests too
deep: a walk that one bad row does not stop takes both alike.
-/

namespace Kryptolog.Server
set_option autoImplicit false

open Tables Json Fallible

/-! ## Bad rows as unparseable ones -/

/-- The text, as one that is no JSON where the parser gives up on it. -/
def unparseable : Document → Document
  | .tooDeep raw => .notJson raw
  | content => content

def Message.blanked (row : Message) : Message := { row with content := unparseable row.content }

def AgedMessage.blanked (row : AgedMessage) : AgedMessage := { row with content := unparseable row.content }

theorem Message.key_blanked (row : Message) : Keyed.key row.blanked = Keyed.key row := rfl

theorem AgedMessage.key_blanked (row : AgedMessage) : Keyed.key row.blanked = Keyed.key row := rfl

/-- A table of `_MODELS` with every bad row as an unparseable one. -/
def blankedRows (rows : Serial AgedMessage) : Serial AgedMessage :=
  rows.update (fun _ => true) AgedMessage.blanked AgedMessage.key_blanked

def blankedTables (tables : Messages) : Messages := fun kind => blankedRows (tables kind)

/-- The database with every bad row as an unparseable one. -/
def Database.blanked (db : Database) : Database :=
  { db with
    messages := db.messages.update (fun _ => true) Message.blanked Message.key_blanked
    groupMessages := db.groupMessages.update (fun _ => true) Message.blanked Message.key_blanked }

/-- A pass comes to its end and does what it does where the bad rows are unparseable ones. -/
def PassesOver (tables : Messages) (days now : ℕ) : Prop :=
  ∃ after deleted, purgeExpiredMessages tables days now = .ok (after, deleted) ∧
    purgeExpiredMessages (blankedTables tables) days now = .ok (blankedTables after, deleted)

/-- The walks of an erase come to their end and find what they find where the bad rows are unparseable ones. -/
structure WalksOver (db : Database) (a : Address) (scope : Scope) : Prop where
  keys : ∃ keys, redactionKeys db a scope = .ok keys ∧ redactionKeys db.blanked a scope = .ok keys
  pages : ∀ limit offset, 0 < limit → ∃ page, redactableMessages db a limit offset scope = .ok page ∧
    redactableMessages db.blanked a limit offset scope = .ok page
  kept : ∃ n, keptMessages db a scope = .ok n ∧ keptMessages db.blanked a scope = .ok n
  deleted : ∃ db' n, deleteOwnMessages db a scope = .ok (db', n) ∧
    deleteOwnMessages db.blanked a scope = .ok (db'.blanked, n)

/-! ## Retention -/

section retention

variable {tables : Messages} {rows : Serial AgedMessage} {cutoff days now : ℕ}

theorem unparseable_eq_self {content : Document} (h : ∀ raw, content ≠ .tooDeep raw) :
    unparseable content = content := by
  cases content with
  | tooDeep raw => exact absurd rfl (h raw)
  | json v => rfl
  | notJson raw => rfl

theorem AgedMessage.blanked_eq_self {r : AgedMessage} (h : ¬ r.IsTooDeep) : r.blanked = r := by
  rw [AgedMessage.blanked, unparseable_eq_self fun raw hraw => h ⟨raw, hraw⟩]

/-- A selection by the age of the rows, where none of those that it selects is bad. -/
theorem where'_blanked {p : AgedMessage → Bool} (hp : ∀ r, p r.blanked = p r)
    (h : ∀ r ∈ rows, p r = true → ¬ r.IsTooDeep) :
    (blankedRows rows).where' p = rows.where' p := by
  have hsame : (rows.where' p).map AgedMessage.blanked = rows.where' p := by
    refine (List.map_congr_left fun r hr => ?_).trans (List.map_id _)
    obtain ⟨hr, hselected⟩ := Table.mem_where'.mp hr
    exact AgedMessage.blanked_eq_self (h r hr hselected)
  have hmap := Table.where'_update rows.toTable (fun _ => true) p AgedMessage.blanked AgedMessage.key_blanked hp
  exact hmap.trans hsame

theorem doomedIds_blanked (h : ∀ r ∈ rows, r.createdAt < cutoff + sessionGrace → ¬ r.IsTooDeep) :
    doomedIds (blankedRows rows) cutoff = doomedIds rows cutoff := by
  have hwindow : (blankedRows rows).where' (inWindow cutoff) =
      rows.where' (inWindow cutoff) := by
    refine where'_blanked (fun r => rfl) fun r hr hwindow => ?_
    rw [inWindow, Bool.and_eq_true, decide_eq_true_eq, decide_eq_true_eq] at hwindow
    exact h r hr hwindow.2
  have hold : (blankedRows rows).where' (fun r => r.createdAt < cutoff) =
      rows.where' fun r => r.createdAt < cutoff := by
    refine where'_blanked (fun r => rfl) fun r hr hlt => ?_
    have hlt : r.createdAt < cutoff := by simpa using hlt
    exact h r hr (by omega)
  rw [doomedIds, doomedIds, protectedSessions, protectedSessions, oldRows, oldRows, hwindow, hold]

theorem deleteBatches_blanked (rows : Serial AgedMessage) (doomed : List ℕ) :
    deleteBatches (blankedRows rows) doomed =
      blankedRows (deleteBatches rows doomed) := by
  unfold deleteBatches blankedRows
  induction batches doomed generalizing rows with
  | nil => rfl
  | cons ids rest ih =>
    rw [List.foldl_cons, List.foldl_cons, Serial.delete_update AgedMessage.key_blanked _ rows fun r => rfl]
    exact ih _

/-- A pass comes to its end where it can go back that many days and the parser gives up on no row before the end
of the window. -/
theorem purgeExpiredMessages_isOk : (∃ out, purgeExpiredMessages tables days now = .ok out) ↔
    days * dayLength ≤ now ∧
      ∀ kind, ∀ r ∈ tables kind, r.createdAt + days * dayLength < now + sessionGrace → ¬ r.IsTooDeep := by
  by_cases hdays : days * dayLength ≤ now
  · have hcutoff := cutoffOf_eq hdays
    rw [and_iff_right hdays]
    constructor
    · rintro ⟨out, hout⟩ kind r hr hend hdeep
      obtain ⟨cutoff, hcutoff', hout⟩ := bind_eq_ok.mp hout
      obtain rfl := Except.ok.inj (hcutoff.symm.trans hcutoff')
      obtain ⟨dm, hdm, hout⟩ := bind_eq_ok.mp hout
      obtain ⟨group, hgroup, -⟩ := bind_eq_ok.mp hout
      have hlt : r.createdAt < now - days * dayLength + sessionGrace := by omega
      cases kind with
      | dm => exact doomedIds_isOk.mp ⟨dm, hdm⟩ r hr hlt hdeep
      | group => exact doomedIds_isOk.mp ⟨group, hgroup⟩ r hr hlt hdeep
    · intro hall
      have hok : ∀ kind, ∃ ids, doomedIds (tables kind) (now - days * dayLength) = .ok ids := fun kind =>
        doomedIds_isOk.mpr fun r hr hlt => hall kind r hr (by omega)
      obtain ⟨dm, hdm⟩ := hok .dm
      obtain ⟨group, hgroup⟩ := hok .group
      exact ⟨_, purgeExpiredMessages_eq hcutoff hdm hgroup⟩
  · constructor
    · rintro ⟨out, hout⟩
      obtain ⟨cutoff, hcutoff, -⟩ := bind_eq_ok.mp hout
      rw [cutoffOf, if_neg hdays] at hcutoff
      cases hcutoff
    · exact fun h => absurd h.1 hdays

/-- A pass that comes to its end deletes the same rows beside unparseable ones. -/
theorem purgeExpiredMessages_blanked {after : Messages} {deleted : Kind → ℕ}
    (h : purgeExpiredMessages tables days now = .ok (after, deleted)) :
    purgeExpiredMessages (blankedTables tables) days now = .ok (blankedTables after, deleted) := by
  obtain ⟨hdays, hdeep⟩ := purgeExpiredMessages_isOk.mp ⟨_, h⟩
  have hsame : ∀ kind, doomedIds (blankedTables tables kind) (now - days * dayLength) =
      doomedIds (tables kind) (now - days * dayLength) := fun kind =>
    doomedIds_blanked fun r hr hlt => hdeep kind r hr (by omega)
  obtain ⟨cutoff, hcutoff, h⟩ := bind_eq_ok.mp h
  obtain rfl := Except.ok.inj ((cutoffOf_eq hdays).symm.trans hcutoff)
  obtain ⟨dm, hdm, h⟩ := bind_eq_ok.mp h
  obtain ⟨group, hgroup, h⟩ := bind_eq_ok.mp h
  obtain ⟨rfl, rfl⟩ := Prod.mk.inj (Except.ok.inj h)
  rw [purgeExpiredMessages_eq hcutoff ((hsame .dm).trans hdm) ((hsame .group).trans hgroup)]
  congr 2
  funext kind
  exact deleteBatches_blanked (tables kind) (ofKind dm group kind)

theorem passesOver_iff : PassesOver tables days now ↔ days * dayLength ≤ now ∧
    ∀ kind, ∀ r ∈ tables kind, r.createdAt + days * dayLength < now + sessionGrace → ¬ r.IsTooDeep := by
  rw [← purgeExpiredMessages_isOk]
  constructor
  · rintro ⟨after, deleted, h, -⟩
    exact ⟨_, h⟩
  · rintro ⟨⟨after, deleted⟩, h⟩
    exact ⟨after, deleted, h, purgeExpiredMessages_blanked h⟩

end retention

/-! ## The erase walks -/

section walks

variable {db : Database} {a : Address} {scope : Scope}

theorem Message.blanked_eq_self {row : Message} (h : readable row.content = true) : row.blanked = row := by
  rw [Message.blanked, unparseable_eq_self]
  intro raw hraw
  rw [hraw] at h
  cases h

theorem store_blanked (db : Database) (kind : Kind) :
    db.blanked.store kind = (db.store kind).update (fun _ => true) Message.blanked Message.key_blanked := by
  cases kind with
  | dm => rfl
  | group => rfl

/-- The author's rows beside unparseable ones, where none of the author's own is bad. -/
theorem ownMessages_blanked (h : AllReadable db a scope) :
    ownMessages db.blanked a scope = ownMessages db a scope := by
  have hmap : ownMessages db.blanked a scope = (ownMessages db a scope).map fun c => (c.1, c.2.blanked) := by
    simp only [ownMessages, List.map_flatMap, List.map_map]
    congr 1
    funext kind
    rw [store_blanked]
    have hwhere := Table.where'_update (db.store kind).toTable (fun _ => true)
      (fun row => row.senderAddress == a && inScope kind row scope) Message.blanked Message.key_blanked fun r => rfl
    exact (congrArg _ hwhere).trans (List.map_map ..)
  rw [hmap]
  refine (List.map_congr_left fun c hc => ?_).trans (List.map_id _)
  rw [Message.blanked_eq_self (h c hc)]
  rfl

/-- A deletion that comes to its end deletes the same rows beside unparseable ones. -/
theorem deleteOwnMessages_blanked {db' : Database} {n : ℕ} (hread : AllReadable db a scope)
    (h : deleteOwnMessages db a scope = .ok (db', n)) :
    deleteOwnMessages db.blanked a scope = .ok (db'.blanked, n) := by
  obtain ⟨deletable, hdeletable, h⟩ := bind_eq_ok.mp h
  obtain ⟨rfl, rfl⟩ := Prod.mk.inj (Except.ok.inj h)
  refine bind_eq_ok.mpr ⟨deletable, by rw [ownMessages_blanked hread]; exact hdeletable, ?_⟩
  simp only [Database.blanked, Except.ok.injEq, Prod.mk.injEq, and_true]
  rw [Serial.delete_update Message.key_blanked _ db.messages fun r => rfl,
    Serial.delete_update Message.key_blanked _ db.groupMessages fun r => rfl]

theorem walksOver_iff : WalksOver db a scope ↔ ∀ c ∈ ownMessages db a scope, ∀ raw, c.2.content ≠ .tooDeep raw := by
  have hreadable : AllReadable db a scope ↔ ∀ c ∈ ownMessages db a scope, ∀ raw, c.2.content ≠ .tooDeep raw := by
    refine forall₂_congr fun c _ => ?_
    cases c.2.content with
    | json v => simp [readable]
    | notJson raw => simp [readable]
    | tooDeep raw => simp [readable]
  rw [← hreadable]
  constructor
  · intro h
    obtain ⟨keys, hkeys, -⟩ := h.keys
    exact (redactionKeys_eq_ok.mp hkeys).1
  · intro hread
    have hown := ownMessages_blanked hread
    have hreads : AllReadable db.blanked a scope := by
      rw [AllReadable, hown]
      exact hread
    obtain ⟨⟨db', n⟩, hdelete⟩ := deleteOwnMessages_isOk hread
    refine ⟨⟨_, redactionKeys_eq_ok.mpr ⟨hread, rfl⟩, ?_⟩, fun limit offset hlimit => ?_,
      ⟨_, keptMessages_eq_ok.mpr ⟨hread, rfl⟩, ?_⟩, ⟨db', n, hdelete, deleteOwnMessages_blanked hread hdelete⟩⟩
    · exact redactionKeys_eq_ok.mpr ⟨hreads, by rw [hown]⟩
    · have hpage : redactableMessages db a limit offset scope =
          .ok ((((listedCarriers db a scope).map manifestOf).drop offset).take limit) :=
        redactableMessages_eq hread hlimit
      refine ⟨_, hpage, ?_⟩
      rw [← hpage, redactableMessages, redactableMessages, hown]
    · exact keptMessages_eq_ok.mpr ⟨hreads, by rw [countKept, countKept, hown]⟩

end walks

/-- A bad row blocks nobody exactly where no walk meets one: a retention pass parses the rows before the end of
its window, an erase those of its author in its scope. -/
theorem bad_rows_iff (tables : Messages) (days now : ℕ) (db : Database) (a : Address) (scope : Scope) :
    (PassesOver tables days now ↔ days * dayLength ≤ now ∧
        ∀ kind, ∀ r ∈ tables kind, r.createdAt + days * dayLength < now + sessionGrace → ¬ r.IsTooDeep) ∧
      (WalksOver db a scope ↔ ∀ c ∈ ownMessages db a scope, ∀ raw, c.2.content ≠ .tooDeep raw) :=
  ⟨passesOver_iff, walksOver_iff⟩

section sample

/-- A message that nests too deep. -/
def deepRow (id : ℕ) : Message := ⟨id, lower "c", "b", .tooDeep "["⟩

theorem key_deepRow (id : ℕ) : Keyed.key (deepRow id) = id := rfl

def deepDatabase : Database := { Database.empty with messages := Serial.empty.insert deepRow key_deepRow }

/-- One message that nests too deep stops the retention of the server and the erase of its author. -/
theorem bad_row_blocks : (¬ ∀ (tables : Messages) (days now : ℕ), days * dayLength ≤ now →
    PassesOver tables days now) ∧
      ¬ ∀ (db : Database) (a : Address) (scope : Scope), WalksOver db a scope := by
  constructor
  · intro h
    have hdeep : deepMessage 1 ∈ deepTables .dm := mem_deepTables.mpr (by simp)
    have hpasses := h deepTables 1 (10 * dayLength) (by decide +kernel)
    exact (passesOver_iff.mp hpasses).2 .dm _ hdeep (by decide +kernel) ⟨_, rfl⟩
  · intro h
    have hown : (Kind.dm, deepRow 0) ∈ ownMessages deepDatabase (lower "c") none :=
      mem_ownMessages.mpr ⟨List.mem_singleton_self _, rfl, rfl⟩
    exact walksOver_iff.mp (h deepDatabase (lower "c") none) _ hown "[" rfl

end sample

end Kryptolog.Server
