import Kryptolog.Server.EraseProgress

/-! # What an erase does to a row

Over any sequence of rounds by one author, accepted and refused, each row of the tables meets one
of four fates: it stays as it is, it is redacted, it is deleted, or it goes with a channel that
loses its last member (`Fate`). A row that is deleted parses and carries no key map; a redacted one
keeps everything that was signed but its ciphertext. `erase_rounds` adds what single rounds do: the
number of rows left goes down with every redaction, and the round that completes leaves every row
of the author deleted, redacted or counted in `kept`.
-/

namespace Kryptolog.Server
set_option autoImplicit false

open Tables Json Fallible Runs

/-! ## Three kinds of rows -/

/-- A text that parses and carries nobody's key. -/
def isDeletable (d : Document) : Bool := (payloadIn d).any isKeyless

/-- The redacted form: a key map and no ciphertext. -/
def isRedactedForm (d : Document) : Bool :=
  (payloadIn d).any fun p => present (p.get "keys") && isNone (p.get "ct")

/-- Exactly one of three holds. -/
def ExactlyOne (p q r : Prop) : Prop := (p ∧ ¬ q ∧ ¬ r) ∨ (¬ p ∧ q ∧ ¬ r) ∨ (¬ p ∧ ¬ q ∧ r)

/-- A row that is not to be redacted is deletable, redacted or kept. -/
theorem classified {d : Document} (h : (payloadIn d).any isListed = false) :
    ExactlyOne (isDeletable d = true) (isRedactedForm d = true) (isKept d = true) := by
  cases hp : payloadIn d with
  | none => simp [ExactlyOne, isDeletable, isRedactedForm, isKept, hp]
  | some p =>
    rw [hp, Option.any_some] at h
    cases hkeys : present (p.get "keys") <;> cases hct : isNone (p.get "ct") <;>
      cases hsign : isSignable p <;>
      simp_all [ExactlyOne, isDeletable, isRedactedForm, isKept, isKeyless, isListed, isCarrier]

/-- A redacted row is of the redacted form, and of no other. -/
theorem RedactedFrom.isRedactedForm {kind : Kind} {target : String} {p q : Value}
    {signature : String} (h : RedactedFrom kind target p signature q) (hl : isListed p = true) :
    present (q.get "keys") = true ∧ isNone (q.get "ct") = true := by
  obtain ⟨hcarrier, -⟩ := Bool.and_eq_true_iff.mp hl
  obtain ⟨hkeys, -⟩ := Bool.and_eq_true_iff.mp hcarrier
  have hcopied := h.copied "keys" (by simp)
  refine ⟨?_, by rw [h.ct]; rfl⟩
  rw [hcopied]
  cases hk : p.get "keys" with
  | none => simp [hk, present] at hkeys
  | some v => simpa [hk, present] using hkeys

/-! ## The fate of a row -/

/-- A row is in the scope of one of the rounds. -/
def Reaches (rounds : List Round) (kind : Kind) (row : Message) : Prop :=
  ∃ round ∈ rounds, ∃ scope, round.target.scope = .ok scope ∧ inScope kind row scope = true

/-- The row is there no more. -/
def Gone (db : Database) (kind : Kind) (row : Message) : Prop :=
  ∀ row' ∈ db.store kind, row'.id ≠ row.id

/-- What rounds by `a` make of a row. -/
inductive Fate (a : Address) (rounds : List Round) (db db' : Database) (kind : Kind)
    (row : Message) : Prop
  | same (h : row ∈ db'.store kind)
  | redacted (row' : Message) (h : row' ∈ db'.store kind) (hid : row'.id = row.id)
      (hsame : row'.senderAddress = row.senderAddress ∧ row'.target = row.target)
      (hsender : row.senderAddress = a) (hscope : Reaches rounds kind row) (p q : Value)
      (signature : String) (hp : payloadIn row.content = some p) (hl : isListed p = true)
      (hq : payloadIn row'.content = some q) (hred : RedactedFrom kind row.target p signature q)
  | deleted (h : Gone db' kind row) (hsender : row.senderAddress = a)
      (hscope : Reaches rounds kind row) (hkeyless : isDeletable row.content = true)
  | withChannel (h : Gone db' kind row) (hkind : kind = .group)
      (hchannel : ChannelGone a db db' row.target)

/-- The frame of rounds by `a`: no row is new, no channel is new, and the other members stay where
messages do. -/
structure Frame (a : Address) (db db' : Database) : Prop where
  old : ∀ kind, ∀ row' ∈ db'.store kind, ∃ row ∈ db.store kind,
    row'.id = row.id ∧ row'.senderAddress = row.senderAddress ∧ row'.target = row.target
  channel : ∀ c' ∈ db'.groupChannels, ∃ c ∈ db.groupChannels, c.id = c'.id
  member : ∀ m ∈ db.groupMembers, m.userAddress ≠ a →
    (∃ m' ∈ db'.groupMembers, m'.channelId = m.channelId ∧ m'.userAddress = m.userAddress) ∨
      ∀ row ∈ db'.store .group, row.target ≠ m.channelId

section fate

variable {a : Address} {db db₁ db₂ db₃ : Database} {kind : Kind} {row : Message}
  {rounds rounds' : List Round}

theorem Frame.refl (a : Address) (db : Database) : Frame a db db where
  old := fun _ row hrow => ⟨row, hrow, rfl, rfl, rfl⟩
  channel := fun c hc => ⟨c, hc, rfl⟩
  member := fun m hm _ => .inl ⟨m, hm, rfl, rfl⟩

theorem Frame.trans (h : Frame a db₁ db₂) (h' : Frame a db₂ db₃) : Frame a db₁ db₃ where
  old := by
    intro kind row₃ hrow₃
    obtain ⟨row₂, hrow₂, hid₂, hs₂, ht₂⟩ := h'.old kind row₃ hrow₃
    obtain ⟨row₁, hrow₁, hid₁, hs₁, ht₁⟩ := h.old kind row₂ hrow₂
    exact ⟨row₁, hrow₁, hid₂.trans hid₁, hs₂.trans hs₁, ht₂.trans ht₁⟩
  channel := by
    intro c₃ hc₃
    obtain ⟨c₂, hc₂, hid₂⟩ := h'.channel c₃ hc₃
    obtain ⟨c₁, hc₁, hid₁⟩ := h.channel c₂ hc₂
    exact ⟨c₁, hc₁, hid₁.trans hid₂⟩
  member := by
    intro m hm hne
    have hnone : (∀ row ∈ db₂.store .group, row.target ≠ m.channelId) →
        ∀ row ∈ db₃.store .group, row.target ≠ m.channelId := by
      intro hnone row₃ hrow₃
      obtain ⟨row₂, hrow₂, -, -, ht⟩ := h'.old .group row₃ hrow₃
      exact ht ▸ hnone row₂ hrow₂
    rcases h.member m hm hne with ⟨m₂, hm₂, hid₂, hme₂⟩ | hgone
    · rcases h'.member m₂ hm₂ (hme₂ ▸ hne) with ⟨m₃, hm₃, hid₃, hme₃⟩ | hgone
      · exact .inl ⟨m₃, hm₃, hid₃.trans hid₂, hme₃.trans hme₂⟩
      · exact .inr fun row hrow => hid₂ ▸ hgone row hrow
    · exact .inr (hnone hgone)

theorem Gone.mono (h : Gone db₁ kind row) (hframe : Frame a db₁ db₂) : Gone db₂ kind row := by
  intro row₂ hrow₂ hid
  obtain ⟨row₁, hrow₁, hid₁, -⟩ := hframe.old kind row₂ hrow₂
  exact h row₁ hrow₁ (hid₁.symm.trans hid)

/-- A channel that goes in a later round had no other member before the earlier ones either, where
a message of it was still there in between. -/
theorem ChannelGone.before {target : String} (h : ChannelGone a db₂ db₃ target)
    (hframe : Frame a db₁ db₂) (hrow : ∃ row ∈ db₂.store .group, row.target = target) :
    ChannelGone a db₁ db₃ target := by
  refine ⟨h.1, fun m hm hid => ?_⟩
  by_contra hne
  obtain ⟨row, hrow, ht⟩ := hrow
  rcases hframe.member m hm hne with ⟨m', hm', hid', hme⟩ | hnone
  · exact hne (hme ▸ h.2 m' hm' (hid'.trans hid))
  · exact hnone row hrow (ht.trans hid.symm)

theorem ChannelGone.after {target : String} (h : ChannelGone a db₁ db₂ target)
    (hframe : Frame a db₂ db₃) : ChannelGone a db₁ db₃ target := by
  refine ⟨fun c hc hid => ?_, h.2⟩
  obtain ⟨c₂, hc₂, hid₂⟩ := hframe.channel c hc
  exact h.1 c₂ hc₂ (hid₂.trans hid)

theorem Reaches.left (h : Reaches rounds kind row) : Reaches (rounds ++ rounds') kind row := by
  obtain ⟨round, hround, hrest⟩ := h
  exact ⟨round, List.mem_append_left _ hround, hrest⟩

theorem Reaches.right (h : Reaches rounds' kind row) : Reaches (rounds ++ rounds') kind row := by
  obtain ⟨round, hround, hrest⟩ := h
  exact ⟨round, List.mem_append_right _ hround, hrest⟩

theorem Reaches.of_target {row' : Message} (h : Reaches rounds kind row')
    (ht : row'.target = row.target) : Reaches rounds kind row := by
  obtain ⟨round, hround, scope, hscope, hin⟩ := h
  refine ⟨round, hround, scope, hscope, ?_⟩
  cases scope with
  | none => rfl
  | some s => rwa [inScope, ← ht]

/-- The fates of a row over rounds, one after the other. A redacted row is not redacted again and
never deleted for want of keys. -/
theorem Fate.trans (h : Fate a rounds db₁ db₂ kind row)
    (h' : ∀ row₂ ∈ db₂.store kind, Fate a rounds' db₂ db₃ kind row₂) (hframe : Frame a db₁ db₂)
    (hframe' : Frame a db₂ db₃) : Fate a (rounds ++ rounds') db₁ db₃ kind row := by
  cases h with
  | same hrow =>
    cases h' row hrow with
    | same hrow₃ => exact .same hrow₃
    | redacted row₃ hrow₃ hid hsame hsender hscope p q signature hp hl hq hred =>
      exact .redacted row₃ hrow₃ hid hsame hsender hscope.right p q signature hp hl hq hred
    | deleted hgone hsender hscope hkeyless => exact .deleted hgone hsender hscope.right hkeyless
    | withChannel hgone hkind hchannel =>
      exact .withChannel hgone hkind (hchannel.before hframe ⟨row, hkind ▸ hrow, rfl⟩)
  | redacted row₂ hrow₂ hid hsame hsender hscope p q signature hp hl hq hred =>
    obtain ⟨hkeys, hct⟩ := hred.isRedactedForm hl
    cases h' row₂ hrow₂ with
    | same hrow₃ =>
      exact .redacted row₂ hrow₃ hid hsame hsender hscope.left p q signature hp hl hq hred
    | redacted row₃ hrow₃ _ _ _ _ p' _ _ hp' hl' _ _ =>
      obtain rfl : q = p' := Option.some.inj (hq.symm.trans hp')
      rw [hred.not_listed] at hl'
      cases hl'
    | deleted _ _ _ hkeyless =>
      rw [isDeletable, hq, Option.any_some, isKeyless, hkeys] at hkeyless
      cases hkeyless
    | withChannel hgone hkind hchannel =>
      refine .withChannel (fun row₃ hrow₃ e => hgone row₃ hrow₃ (e.trans hid.symm)) hkind ?_
      rw [← hsame.2]
      exact hchannel.before hframe ⟨row₂, hkind ▸ hrow₂, rfl⟩
  | deleted hgone hsender hscope hkeyless =>
    exact .deleted (hgone.mono hframe') hsender hscope.left hkeyless
  | withChannel hgone hkind hchannel =>
    exact .withChannel (hgone.mono hframe') hkind (hchannel.after hframe')

end fate

/-! ## One round -/

section round

variable {prim : Primitives} {cfg : Config} {a : Address} {db db₁ db₂ db' : Database}
  {author : User} {scope : Scope} {pending : List Redaction} {round : Round} {resp : EraseResponse}
  {kind : Kind} {row : Message}

theorem Fate.mono {rounds rounds' : List Round} (h : Fate a rounds db db' kind row)
    (hle : ∀ r ∈ rounds, r ∈ rounds') : Fate a rounds' db db' kind row := by
  have hreach : Reaches rounds kind row → Reaches rounds' kind row := by
    rintro ⟨r, hr, hrest⟩
    exact ⟨r, hle r hr, hrest⟩
  cases h with
  | same hrow => exact .same hrow
  | redacted row' hrow hid hsame hsender hscope p q signature hp hl hq hred =>
    exact .redacted row' hrow hid hsame hsender (hreach hscope) p q signature hp hl hq hred
  | deleted hgone hsender hscope hkeyless => exact .deleted hgone hsender (hreach hscope) hkeyless
  | withChannel hgone hkind hchannel => exact .withChannel hgone hkind hchannel

theorem SameContents.frame (h : SameContents db db') : Frame a db db' where
  old := fun kind row' hrow => ⟨row', h.store kind ▸ hrow, rfl, rfl, rfl⟩
  channel := fun c hc => ⟨c, h.groups.2 ▸ hc, rfl⟩
  member := fun m hm _ => .inl ⟨m, h.groups.1 ▸ hm, rfl, rfl⟩

theorem SameContents.fate (h : SameContents db db') {rounds : List Round}
    (hrow : row ∈ db.store kind) : Fate a rounds db db' kind row := .same (h.store kind ▸ hrow)

/-- A row after redactions. -/
theorem Redacts.mem (h : Redacts prim db db₁ author scope pending) (hrow : row ∈ db.store kind) :
    rewrite pending kind row ∈ db₁.store kind := by
  have hmem : rewrite pending kind row ∈ (db₁.store kind).rows := by
    rw [h.store kind]
    exact List.mem_map_of_mem hrow
  exact hmem

theorem Redacts.frame (h : Redacts prim db db₁ author scope pending) : Frame a db db₁ where
  old := by
    intro kind row' hrow'
    have hmem : row' ∈ (db.store kind).rows.map (rewrite pending kind) := h.store kind ▸ hrow'
    obtain ⟨row, hrow, rfl⟩ := List.mem_map.mp hmem
    exact ⟨row, hrow, rewrite_same pending kind row⟩
  channel := fun c hc => ⟨c, h.groups.2 ▸ hc, rfl⟩
  member := fun m hm _ => .inl ⟨m, h.groups.1 ▸ hm, rfl, rfl⟩

theorem Redacts.rowFate (h : Redacts prim db db₁ author scope pending)
    (hscope : round.target.scope = .ok scope) (hrow : row ∈ db.store kind) :
    Fate author.address [round] db db₁ kind row := by
  have hmem := h.mem hrow
  rcases h.fate hrow with ⟨-, heq⟩ | ⟨r, -, p, signature, rfl, hver, hcontent⟩
  · rw [heq] at hmem
    exact .same hmem
  · obtain ⟨-, hsender, hin⟩ := mem_ownMessages.mp hver.own
    obtain ⟨q, hq, hred⟩ := payloadIn_redactedContent r.1 row p signature
    obtain ⟨hid, hsame⟩ := rewrite_same pending r.1 row
    exact .redacted _ hmem hid hsame hsender ⟨round, List.mem_singleton_self _, scope, hscope, hin⟩
      p q signature hver.payload hver.listed (hcontent ▸ hq) hred

theorem KeylessDeleted.frame (h : KeylessDeleted db₁ db₂ a scope) : Frame a db₁ db₂ where
  old := fun kind row' hrow => ⟨row', ((h.mem kind row').mp hrow).1, rfl, rfl, rfl⟩
  channel := fun c hc => ⟨c, h.groups.2 ▸ hc, rfl⟩
  member := fun m hm _ => .inl ⟨m, h.groups.1 ▸ hm, rfl, rfl⟩

/-- A deleted row is gone by its id. -/
theorem KeylessDeleted.gone (h : KeylessDeleted db₁ db₂ a scope) (hrow : row ∈ db₁.store kind)
    (hkey : Keyless db₁ a scope kind row) : Gone db₂ kind row := by
  intro row' hrow' hid
  obtain ⟨hmem, hnot⟩ := (h.mem kind row').mp hrow'
  obtain rfl := Serial.eq_of_key hmem hrow hid
  exact hnot hkey

theorem KeylessDeleted.rowFate (h : KeylessDeleted db₁ db₂ a scope)
    (hscope : round.target.scope = .ok scope) (hrow : row ∈ db₁.store kind) :
    Fate a [round] db₁ db₂ kind row := by
  by_cases hkey : Keyless db₁ a scope kind row
  · obtain ⟨-, hsender, hin⟩ := mem_ownMessages.mp hkey.1
    exact .deleted (h.gone hrow hkey) hsender
      ⟨round, List.mem_singleton_self _, scope, hscope, hin⟩ hkey.2
  · exact .same ((h.mem kind row).mpr ⟨hrow, hkey⟩)

theorem LeftGroups.old' (h : LeftGroups a db₂ db') (hrow : row ∈ db'.store kind) :
    row ∈ db₂.store kind := by
  cases kind with
  | dm =>
    have hstore : db'.store .dm = db₂.store .dm := h.messages
    rwa [hstore] at hrow
  | group => exact h.old row hrow

theorem LeftGroups.kept' (h : LeftGroups a db₂ db') (hrow : row ∈ db₂.store kind) :
    row ∈ db'.store kind ∨ (kind = .group ∧ ChannelGone a db₂ db' row.target) := by
  cases kind with
  | dm =>
    have hstore : db'.store .dm = db₂.store .dm := h.messages
    exact .inl (by rwa [hstore])
  | group => exact (h.kept row hrow).imp id fun hgone => ⟨rfl, hgone⟩

theorem LeftGroups.frame (h : LeftGroups a db₂ db') : Frame a db₂ db' where
  old := fun _ row' hrow => ⟨row', h.old' hrow, rfl, rfl, rfl⟩
  channel := h.channel
  member := h.member

theorem LeftGroups.rowFate (h : LeftGroups a db₂ db') (hrow : row ∈ db₂.store kind) :
    Fate a [] db₂ db' kind row := by
  by_cases hin : row ∈ db'.store kind
  · exact .same hin
  · obtain ⟨hkind, hchannel⟩ := (h.kept' hrow).resolve_left hin
    refine .withChannel (fun row' hrow' hid => ?_) hkind hchannel
    obtain rfl := Serial.eq_of_key (h.old' hrow') hrow hid
    exact hin hrow'

/-- A round, accepted or refused, keeps the frame and leaves each row one of the fates. -/
theorem round_fate (hauthor : lower round.token.sub = a) :
    Frame a db (eraseRound prim cfg db round).1 ∧
      ∀ kind, ∀ row ∈ db.store kind, Fate a [round] db (eraseRound prim cfg db round).1 kind row := by
  rcases hr : eraseRound prim cfg db round with ⟨db', resp | resp⟩
  · have hsame := eraseRound_error hr
    exact ⟨hsame.frame, fun kind row hrow => hsame.fate hrow⟩
  · obtain ⟨author, -, haddr, scope, hscope, pending, db₁, hredacts, -, -, -, houtcome⟩ :=
      eraseRound_ok hr
    obtain rfl : author.address = a := haddr.trans hauthor
    have hframe₁ : Frame author.address db db₁ := hredacts.frame
    cases houtcome with
    | redacting _ _ _ hsame =>
      refine ⟨hframe₁.trans hsame.frame, fun kind row hrow => ?_⟩
      have hfate : Fate author.address ([round] ++ []) db db' kind row :=
        (hredacts.rowFate hscope hrow).trans (fun row₁ hrow₁ => hsame.fate hrow₁) hframe₁ hsame.frame
      exact hfate.mono (by simp)
    | done _ _ _ db₂ hdeleted hgroups _ =>
      have hframe₂ := hdeleted.frame
      have hframe₃ := hgroups.frame
      refine ⟨hframe₁.trans (hframe₂.trans hframe₃), fun kind row hrow => ?_⟩
      have hrest : ∀ row₁ ∈ db₁.store kind,
          Fate author.address ([round] ++ []) db₁ db' kind row₁ := fun row₁ hrow₁ =>
        (hdeleted.rowFate hscope hrow₁).trans (fun row₂ hrow₂ => hgroups.rowFate hrow₂)
          hframe₂ hframe₃
      have hfate : Fate author.address ([round] ++ ([round] ++ [])) db db' kind row :=
        (hredacts.rowFate hscope hrow).trans hrest hframe₁ (hframe₂.trans hframe₃)
      exact hfate.mono (by simp)

end round

/-! ## The round that completes -/

/-- What a completed erase of `a` leaves. `db` is the state before the last round. -/
structure Completed (a : Address) (scope : Scope) (db db' : Database) (resp : EraseResponse) :
    Prop where
  /-- `kept` counts the rows that hold their content and are no deletable or redactable ones. -/
  kept : resp.kept = (ownMessages db a scope).countP fun c => isKept c.2.content
  /-- Each row of the author is deleted, redacted, or in place and counted, and no two of these,
  unless its channel went. -/
  rows : ∀ kind row, (kind, row) ∈ ownMessages db a scope →
    (kind = .group ∧ ChannelGone a db db' row.target) ∨
      (ExactlyOne (Gone db' kind row)
        (∃ row' ∈ db'.store kind, row'.id = row.id ∧ isRedactedForm row'.content = true)
        (row ∈ db'.store kind ∧ isKept row.content = true) ∧
      (isKept row.content = true → row ∈ db'.store kind))

section completed

variable {prim : Primitives} {cfg : Config} {a : Address} {db db₁ db₂ db' : Database}
  {author : User} {scope : Scope} {pending : List Redaction} {kind : Kind} {row : Message}
  {resp : EraseResponse}

/-- What is redacted was not of the kept rows, and is none of them. -/
theorem isKept_rewrite (h : Redacts prim db db₁ author scope pending) (hrow : row ∈ db.store kind) :
    isKept (rewrite pending kind row).content = isKept row.content ∧
      (isKept row.content = true → rewrite pending kind row = row) := by
  rcases h.fate hrow with ⟨-, heq⟩ | ⟨r, -, p, signature, -, hver, hcontent⟩
  · rw [heq]
    exact ⟨rfl, fun _ => rfl⟩
  · obtain ⟨q, hq, hred⟩ := payloadIn_redactedContent kind row p signature
    obtain ⟨-, hsignable⟩ := Bool.and_eq_true_iff.mp hver.listed
    have hrow' : isKept row.content = false := by simp [isKept, hver.payload, hsignable]
    have hnew : isKept (rewrite pending kind row).content = false := by
      simp [isKept, hcontent, hq, isCarrier, hred.ct, isNone]
    rw [hnew, hrow']
    exact ⟨rfl, (fun h => by cases h)⟩

theorem countKept_redacts (h : Redacts prim db db₁ author scope pending) :
    countKept db₁ author.address scope = countKept db author.address scope := by
  rw [countKept, h.ownMessages_eq, List.countP_map]
  refine List.countP_congr fun c hc => ?_
  rw [Function.comp_apply, (isKept_rewrite h (mem_ownMessages.mp hc).1).1]

/-- After the redactions a row without keys goes, and another one stays with its channel. -/
theorem completed_row (hdeleted : KeylessDeleted db₁ db₂ a scope) (hgroups : LeftGroups a db₂ db')
    (hown : (kind, row) ∈ ownMessages db₁ a scope) :
    (Gone db' kind row ∧ isDeletable row.content = true) ∨
      (isDeletable row.content = false ∧
        (row ∈ db'.store kind ∨ (kind = .group ∧ ChannelGone a db₁ db' row.target))) := by
  obtain ⟨hrow, -⟩ := mem_ownMessages.mp hown
  cases hdel : isDeletable row.content with
  | true => exact .inl ⟨(hdeleted.gone hrow ⟨hown, hdel⟩).mono hgroups.frame, rfl⟩
  | false =>
    have hnot : ¬ Keyless db₁ a scope kind row := fun hkey => by
      rw [isDeletable, hkey.2] at hdel
      cases hdel
    have hrow₂ := (hdeleted.mem kind row).mpr ⟨hrow, hnot⟩
    refine .inr ⟨rfl, (hgroups.kept' hrow₂).imp id ?_⟩
    rintro ⟨rfl, hchannel⟩
    exact ⟨rfl, hchannel.before hdeleted.frame ⟨row, hrow₂, rfl⟩⟩

theorem completed_of_outcome (hredacts : Redacts prim db db₁ author scope pending)
    (hleft : leftToRedact db₁ author.address scope = 0)
    (hkept : resp.kept = countKept db₁ author.address scope)
    (hdeleted : KeylessDeleted db₁ db₂ author.address scope)
    (hgroups : LeftGroups author.address db₂ db') :
    Completed author.address scope db db' resp where
  kept := hkept.trans (countKept_redacts hredacts)
  rows := by
    intro kind row hown
    obtain ⟨hrow, -⟩ := mem_ownMessages.mp hown
    obtain ⟨hid, -, htarget⟩ := rewrite_same pending kind row
    have hrow₁ := hredacts.mem hrow
    have hown₁ : (kind, rewrite pending kind row) ∈ ownMessages db₁ author.address scope := by
      rw [hredacts.ownMessages_eq]
      exact List.mem_map_of_mem (f := fun c : Kind × Message => (c.1, rewrite pending c.1 c.2)) hown
    have hlisted : (payloadIn (rewrite pending kind row).content).any isListed = false := by
      simpa using List.countP_eq_zero.mp hleft _ hown₁
    have hframe : Frame author.address db₁ db' := hdeleted.frame.trans hgroups.frame
    -- a row of the same id after the round is the row after its redactions
    have hsame : ∀ row' ∈ db'.store kind, row'.id = row.id → row' = rewrite pending kind row := by
      intro row' hrow' hid'
      have hmem₁ := ((hdeleted.mem kind row').mp (hgroups.old' hrow')).1
      exact Serial.eq_of_key hmem₁ hrow₁ (hid'.trans hid.symm)
    obtain ⟨hkeptEq, hkeptSame⟩ := isKept_rewrite hredacts hrow
    have hclass := classified hlisted
    rcases completed_row hdeleted hgroups hown₁ with ⟨hgone, hdel⟩ | ⟨hdel, hin | ⟨rfl, hch⟩⟩
    · have hgone' : Gone db' kind row := fun row' hrow' hid' => hgone row' hrow' (hid'.trans hid.symm)
      have hnotKept : isKept row.content = false := by
        rw [← hkeptEq]
        rcases hclass with ⟨-, -, h⟩ | ⟨h, -, -⟩ | ⟨h, -, -⟩
        · simpa using h
        · exact absurd hdel h
        · exact absurd hdel h
      refine .inr ⟨.inl ⟨hgone', ?_, ?_⟩, by rw [hnotKept]; exact (fun h => by cases h)⟩
      · rintro ⟨row', hrow', hid', -⟩
        exact hgone' row' hrow' hid'
      · rintro ⟨hrow', -⟩
        exact hgone' row hrow' rfl
    · have hnotGone : ¬ Gone db' kind row := fun hgone => hgone _ hin hid
      rcases hclass with ⟨h, -, -⟩ | ⟨-, hform, hk⟩ | ⟨-, hform, hk⟩
      · rw [hdel] at h
        cases h
      · rw [hkeptEq] at hk
        refine .inr ⟨.inr (.inl ⟨hnotGone, ⟨_, hin, hid, hform⟩, fun h => hk h.2⟩), ?_⟩
        exact fun h => absurd h hk
      · rw [hkeptEq] at hk
        rw [hkeptSame hk] at hin
        refine .inr ⟨.inr (.inr ⟨hnotGone, ?_, hin, hk⟩), fun _ => hin⟩
        rintro ⟨row', hrow', hid', hform'⟩
        rw [hsame row' hrow' hid'] at hform'
        exact hform hform'
    · rw [htarget] at hch
      exact .inl ⟨rfl, hch.1, fun m hm hid' => hch.2 m (hredacts.groups.1 ▸ hm) hid'⟩

end completed

/-! ## Runs -/

section runs

variable {prim : Primitives} {cfg : Config} {a : Address} {db db' : Database}

/-- A round of the author at `a`, whatever it erases and whether it is accepted. -/
def RoundStep (prim : Primitives) (cfg : Config) (a : Address) (db : Database) (round : Round)
    (db' : Database) : Prop :=
  lower round.token.sub = a ∧ (eraseRound prim cfg db round).1 = db'

theorem rounds_fate {rounds : List Round} (hrun : Run (RoundStep prim cfg a) db rounds db') :
    Frame a db db' ∧ ∀ kind, ∀ row ∈ db.store kind, Fate a rounds db db' kind row := by
  induction hrun with
  | nil db => exact ⟨.refl a db, fun _ _ hrow => .same hrow⟩
  | @cons db mid db' round rounds hstep _ ih =>
    obtain ⟨hauthor, rfl⟩ := hstep
    obtain ⟨hframe, hfate⟩ : Frame a db (eraseRound prim cfg db round).1 ∧ ∀ kind,
        ∀ row ∈ db.store kind, Fate a [round] db (eraseRound prim cfg db round).1 kind row :=
      round_fate hauthor
    exact ⟨hframe.trans ih.1, fun kind row hrow =>
      (hfate kind row hrow).trans (ih.2 kind) hframe ih.1⟩

/-- What an accepted round does to the number of rows left, and what it leaves where it completes. -/
theorem acceptedRound_effect {round : Round} {resp : EraseResponse} {scope : Scope}
    (hauthor : lower round.token.sub = a) (hscope : round.target.scope = .ok scope)
    (h : eraseRound prim cfg db round = (db', .ok resp)) :
    (round.request.redactions ≠ [] → leftToRedact db' a scope < leftToRedact db a scope) ∧
      (round.request.redactions = [] → leftToRedact db' a scope = leftToRedact db a scope) ∧
      (resp.status ≠ .redacting → Completed a scope db db' resp) := by
  obtain ⟨author, -, haddr, scope', hscope', pending, db₁, hredacts, hlength, -, -, houtcome⟩ :=
    eraseRound_ok h
  obtain rfl : scope' = scope := by
    rw [hscope] at hscope'
    exact (Except.ok.inj hscope').symm
  obtain rfl : author.address = a := haddr.trans hauthor
  have hleft : leftToRedact db' author.address scope' = leftToRedact db₁ author.address scope' := by
    cases houtcome with
    | redacting _ _ _ hsame => rw [leftToRedact, ownMessages_congr hsame.store, leftToRedact]
    | done _ hzero _ db₂ hdeleted hgroups _ =>
      rw [hzero]
      refine List.countP_eq_zero.mpr fun c hc => ?_
      obtain ⟨hrow, hrest⟩ := mem_ownMessages.mp hc
      have hrow₁ := ((hdeleted.mem c.1 c.2).mp (hgroups.old' hrow)).1
      exact List.countP_eq_zero.mp hzero c (mem_ownMessages.mpr ⟨hrow₁, hrest⟩)
  refine ⟨fun hne => ?_, fun hnone => ?_, fun hst => ?_⟩
  · rw [hleft]
    refine hredacts.leftToRedact_lt fun e => hne ?_
    exact List.eq_nil_of_length_eq_zero (by rw [← hlength, e]; rfl)
  · have hempty : pending = [] := List.eq_nil_of_length_eq_zero (by rw [hlength, hnone]; rfl)
    subst hempty
    rw [hleft, leftToRedact_eq hredacts]
    rfl
  · cases houtcome with
    | redacting hst' _ _ _ => exact absurd hst' hst
    | done _ hzero hkept db₂ hdeleted hgroups _ =>
      exact completed_of_outcome hredacts hzero hkept hdeleted hgroups

/-- Over every sequence of rounds by one author each row has one of the four fates and no row is
new; and every accepted round takes rows off the list where it redacts any, leaves their number
where it redacts none, and on completion leaves each row of the author deleted, redacted or
kept. -/
theorem erase_rounds {rounds : List Round} (hrun : Run (RoundStep prim cfg a) db rounds db') :
    (∀ kind, ∀ row' ∈ db'.store kind, ∃ row ∈ db.store kind, row'.id = row.id ∧
      row'.senderAddress = row.senderAddress ∧ row'.target = row.target) ∧
    (∀ kind, ∀ row ∈ db.store kind, Fate a rounds db db' kind row) ∧
    ∀ round db'' resp scope, lower round.token.sub = a → round.target.scope = .ok scope →
      eraseRound prim cfg db' round = (db'', .ok resp) →
      (round.request.redactions ≠ [] → leftToRedact db'' a scope < leftToRedact db' a scope) ∧
        (round.request.redactions = [] → leftToRedact db'' a scope = leftToRedact db' a scope) ∧
        (resp.status ≠ .redacting → Completed a scope db' db'' resp) := by
  obtain ⟨hframe, hfate⟩ := rounds_fate hrun
  exact ⟨hframe.old, hfate, fun round db'' resp scope hauthor hscope h =>
    acceptedRound_effect hauthor hscope h⟩

end runs

/-! ## An owner alone in a channel -/

/-- A message of Bob's that carries a key. -/
def sampleLeftover : Message := ⟨0, lower "bob", "c", .json (samplePayload 0)⟩

/-- Bob left it in a channel in which Alice is the last member. -/
def sampleAlone : Database where
  __ := Database.empty
  users := ⟨[sampleUser "alice"], List.nodup_singleton _⟩
  groupChannels := ⟨[⟨"c", lower "alice"⟩], List.nodup_singleton _⟩
  groupMembers := ⟨⟨[⟨0, "c", lower "alice", "owner", 0⟩], List.nodup_singleton _⟩, 1, by decide⟩
  groupMessages := ⟨⟨[sampleLeftover], List.nodup_singleton _⟩, 1, by
    intro row hrow
    rw [List.mem_singleton.mp hrow]
    exact Nat.zero_lt_one⟩

/-- Alice erases the account. -/
def sampleErase : Round where
  challenges := ⟨[⟨"0a", lower "alice", 9⟩], List.nodup_singleton _⟩
  now := 1
  token := ⟨"alice", 0⟩
  target := .account
  request := ⟨"0a", "https://sample", "sample", "alice" ++ domainSeparate "account-deletion"
    "origin=https://sample\ndeployment=sample\nnonce=0a\nmode=erase\nredactions=[]", []⟩

theorem run_sampleErase : Run (RoundStep samplePrimitives sampleConfig (lower "alice")) sampleAlone
    [sampleErase] (eraseRound samplePrimitives sampleConfig sampleAlone sampleErase).1 :=
  .single ⟨rfl, rfl⟩

/-- Bob's message meets one of the fates. -/
theorem erase_rounds_sample : Fate (lower "alice") [sampleErase] sampleAlone
    (eraseRound samplePrimitives sampleConfig sampleAlone sampleErase).1 .group sampleLeftover :=
  (erase_rounds run_sampleErase).2.1 .group sampleLeftover (List.mem_singleton_self _)

set_option maxRecDepth 10000 in
/-- A round that redacts nothing is accepted with a row left, and the row stays left. And Bob's
message, which carries a key, goes with the channel. -/
theorem not_erase_rounds :
    (¬ ∀ db db' round resp a scope, lower round.token.sub = a → round.target.scope = .ok scope →
      eraseRound samplePrimitives sampleConfig db round = (db', .ok resp) →
      leftToRedact db' a scope < leftToRedact db a scope) ∧
    ¬ ∀ db rounds db' a, Run (RoundStep samplePrimitives sampleConfig a) db rounds db' →
      ∀ kind, ∀ row ∈ db.store kind, Gone db' kind row → isDeletable row.content = true := by
  constructor
  · intro h
    have hread : AllReadable (sampleSent 0) sampleWriter.address none := by
      rw [AllReadable, ownMessages_sampleSent]
      simp [sampleMessage, readable]
    have happly : ∀ d, SameContents (sampleSent 0) d → ∃ d₁ n,
        applyRedactions samplePrimitives d sampleWriter [] none = .ok (d₁, n) ∧
          AllReadable d₁ sampleWriter.address none := fun d hd =>
      ⟨d, 0, applyRedactions_nil, fun c hc => hread c (ownMessages_congr hd.store ▸ hc)⟩
    have htarget : EraseTarget.account.scope = .ok none := rfl
    have hkeys : (([] : List (String × String)).map (·.1)).Nodup := List.nodup_nil
    obtain ⟨round, hround, hreds, db', resp, hok⟩ :=
      exists_round serves_sampleConfig (List.mem_singleton_self sampleWriter) rfl
        sampleWriter_signs htarget hkeys (Nat.zero_le _) happly
    have hscope : round.target.scope = .ok none := by rw [hround.target]; rfl
    have heq := (acceptedRound_effect hround.author hscope hok).2.1 hreds
    have hlt := h _ _ _ _ _ _ hround.author hscope hok
    omega
  · intro h
    have hgone : ∀ row ∈ (eraseRound samplePrimitives sampleConfig sampleAlone
        sampleErase).1.groupMessages.rows, row.id ≠ 0 := by decide
    have hdel := h sampleAlone [sampleErase] _ (lower "alice") run_sampleErase .group
      sampleLeftover (List.mem_singleton_self _) hgone
    exact absurd hdel (by decide)

end Kryptolog.Server
