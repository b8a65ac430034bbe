import Kryptolog.Server.Listings

/-! # Walking a paged list

`utils/paging.js`: a list endpoint is asked for one page after another until one comes back short. The pages of
each list are the answers of its endpoint, which keeps the database and counts the requests that it has answered.
-/

namespace Kryptolog.Client
set_option autoImplicit false

open Tables Fallible Pages Server

/-! ## The walk -/

/-- The query that `pageUrl` appends. -/
structure PageQuery where
  limit : ℕ
  offset : ℕ

/-- `PAGE_SIZE`. -/
def pageSize : ℕ := 100

/-- `MAX_PAGES`. -/
def maxPages : ℕ := 500

section walk

variable {σ α ε : Type}

/-- The loop of `fetchAllPages`, with the pages that may still be asked for. An answer that is no list is `none`,
and ends it. -/
def fetchFrom (fetchPage : σ → PageQuery → σ × Except ε (Option (List α))) (size : ℕ) :
    ℕ → ℕ → List α → σ → σ × Except ε (List α)
  | 0, _, all, s => (s, .ok all)
  | left + 1, page, all, s =>
    match fetchPage s ⟨size, page * size⟩ with
    | (s', .error e) => (s', .error e)
    | (s', .ok none) => (s', .ok all)
    | (s', .ok (some rows)) =>
      if rows.length < size then (s', .ok (all ++ rows))
      else fetchFrom fetchPage size left (page + 1) (all ++ rows) s'

/-- `fetchAllPages`. -/
def fetchAllPages (fetchPage : σ → PageQuery → σ × Except ε (Option (List α))) (size : ℕ) (s : σ) :
    σ × Except ε (List α) := fetchFrom fetchPage size maxPages 0 [] s

/-- In the states of `Holds` the endpoint answers with slices of one list. -/
structure Serves (fetchPage : σ → PageQuery → σ × Except ε (Option (List α))) (rows : List α) (Holds : σ → Prop) :
    Prop where
  answers : ∀ s, Holds s → ∀ offset, ∃ s', Holds s' ∧
    fetchPage s ⟨pageSize, offset⟩ = (s', .ok (some ((rows.drop offset).take pageSize)))
  slices : ∀ s, Holds s → ∀ q s' page, fetchPage s q = (s', .ok (some page)) →
    page = (rows.drop q.offset).take q.limit

variable {fetchPage : σ → PageQuery → σ × Except ε (Option (List α))} {rows : List α} {Holds : σ → Prop} {s : σ}

/-- What is left of the list after the pages that were read. -/
theorem fetchFrom_eq (h : Serves fetchPage rows Holds) (hs : Holds s) {left : ℕ} (page : ℕ)
    (hrows : rows.length ≤ (page + left) * pageSize) :
    ∃ s', fetchFrom fetchPage pageSize left page (rows.take (page * pageSize)) s = (s', .ok rows) := by
  induction left generalizing page s with
  | zero => exact ⟨s, by rw [fetchFrom, List.take_of_length_le (by simpa using hrows)]⟩
  | succ left ih =>
    obtain ⟨s', hs', hpage⟩ := h.answers s hs (page * pageSize)
    have htake : rows.take (page * pageSize) ++ (rows.drop (page * pageSize)).take pageSize =
        rows.take ((page + 1) * pageSize) := by rw [Nat.succ_mul, List.take_add]
    rw [fetchFrom, hpage]
    simp only
    split
    · -- a short page is the last one
      rename_i hshort
      rw [List.length_take, List.length_drop] at hshort
      exact ⟨s', by rw [htake, List.take_of_length_le (by rw [Nat.succ_mul]; omega)]⟩
    · rw [htake]
      exact ih hs' (page + 1) (by rw [show page + 1 + left = page + (left + 1) by omega]; exact hrows)

theorem fetchAllPages_eq (h : Serves fetchPage rows Holds) (hs : Holds s)
    (hrows : rows.length ≤ maxPages * pageSize) :
    ∃ s', fetchAllPages fetchPage pageSize s = (s', .ok rows) :=
  fetchFrom_eq h hs 0 (by rwa [Nat.zero_add])

/-- The walk returns every row once and in order, and only the last page is shorter than its limit. -/
def FetchesAll {κ : Type} (fetchPage : σ → PageQuery → σ × Except ε (Option (List α))) (s : σ) (of : α → κ)
    (Mine : κ → Prop) (before : κ → κ → Prop) : Prop :=
  ∃ rows, Enumerates Mine before (rows.map of) ∧ (∃ s', fetchAllPages fetchPage pageSize s = (s', .ok rows)) ∧
    ∀ q s' page, fetchPage s q = (s', .ok (some page)) → page.length < q.limit → rows.length ≤ q.offset + page.length

theorem fetchesAll {κ : Type} {of : α → κ} {Mine : κ → Prop} {before : κ → κ → Prop}
    (henum : Enumerates Mine before (rows.map of)) (h : Serves fetchPage rows Holds) (hs : Holds s)
    (hrows : rows.length ≤ maxPages * pageSize) : FetchesAll fetchPage s of Mine before := by
  refine ⟨rows, henum, fetchAllPages_eq h hs hrows, fun q s' page hpage hshort => ?_⟩
  obtain rfl := h.slices s hs q s' page hpage
  exact length_le_of_slice_lt hshort

end walk

/-! ## The endpoints -/

/-- An endpoint behind its bounds that changes nothing. -/
def reading {α : Type} (pageMax : ℕ) (endpoint : ℕ → ℕ → List α) (_ : Unit) (q : PageQuery) :
    Unit × Except Fault (Option (List α)) :=
  ((), (checkPageLimit pageMax q.limit).map fun _ => some (endpoint q.limit q.offset))

def workflowPages (db : Database) (caller : User) : Unit → PageQuery → Unit × Except Fault
    (Option (List MultisigWorkflowSummaryResponse)) := reading workflowPageMax (listMultisigWorkflows db caller)

def conversationPages (store : MessageStore) (caller : User) : Unit → PageQuery → Unit × Except Fault
    (Option (List ConversationResponse)) := reading conversationPageMax (getConversations store caller)

def groupPages (store : MessageStore) (caller : User) : Unit → PageQuery → Unit × Except Fault
    (Option (List GroupConversationResponse)) := reading groupPageMax (listGroups store caller)

def secretPages (db : Database) (caller : User) : Unit → PageQuery → Unit × Except Fault
    (Option (List SecretSummaryResponse)) := reading secretPageMax (getSecrets db caller)

/-- The database, and how many requests were answered. -/
abbrev Answering := Database × ℕ

/-- `GET /secrets/shared-with-me`, each request at its own time. -/
def sharedPages (clock : ℕ → Time) (caller : User) (s : Answering) (q : PageQuery) :
    Answering × Except Fault (Option (List (AccessGrant × SecretSummaryResponse))) :=
  match checkPageLimit secretPageMax q.limit with
  | .error fault => (s, .error fault)
  | .ok () =>
    let answer := getSharedSecrets s.1 (clock s.2) caller q.limit q.offset
    ((answer.1, s.2 + 1), .ok (some answer.2))

/-- `GET /secrets/{id}/access`. -/
def accessPages (clock : ℕ → Time) (caller : User) (secretId : ℕ) (s : Answering) (q : PageQuery) :
    Answering × Except Fault (Option (List AccessGrant)) :=
  match checkPageLimit grantPageMax q.limit with
  | .error fault => (s, .error fault)
  | .ok () =>
    match getSecretAccess s.1 (clock s.2) caller secretId q.limit q.offset with
    | .error fault => ((s.1, s.2 + 1), .error fault)
    | .ok (db, grants) => ((db, s.2 + 1), .ok (some grants))

/-! ## Each endpoint serves one list -/

section endpoints

variable {db : Database} {store : MessageStore} {caller : User} {clock : ℕ → Time} {secretId : ℕ}

theorem checkPageLimit_pageSize (pageMax : ℕ) (h : pageSize ≤ pageMax) :
    checkPageLimit pageMax pageSize = .ok () := by
  have hpos : ¬ pageSize < 1 := by decide
  rw [checkPageLimit, if_neg hpos, if_neg (by omega)]

theorem serves_reading {α : Type} {pageMax : ℕ} {endpoint : ℕ → ℕ → List α} {rows : List α}
    (hmax : pageSize ≤ pageMax) (h : ∀ limit offset, endpoint limit offset = page limit offset rows) :
    Serves (reading pageMax endpoint) rows fun _ => True := by
  refine ⟨fun s _ offset => ⟨s, trivial, ?_⟩, fun s _ q s' page hpage => ?_⟩
  · rw [reading, checkPageLimit_pageSize pageMax hmax, h]
    rfl
  · obtain ⟨-, -, hpage⟩ := map_eq_ok.mp (Prod.mk.inj hpage).2
    rw [← Option.some.inj hpage, h]
    rfl

/-- The states in which the caller's grants are those that the first request left. -/
def Steady (db : Database) (clock : ℕ → Time) (scope : AccessGrant → Bool) (s : Answering) : Prop :=
  ∀ i, purgeExpiredGrants s.1 (clock i) scope = purgeExpiredGrants db (clock 0) scope

theorem steady_start {scope : AccessGrant → Bool} (k : ℕ)
    (hclock : ∀ i, ∀ g ∈ db.accessGrants, scope g = true → g.live (clock i) = g.live (clock 0)) :
    Steady db clock scope (db, k) := fun i => purgeExpiredGrants_congr (hclock i)

theorem steady_purged {scope : AccessGrant → Bool} (k : ℕ)
    (hclock : ∀ i, ∀ g ∈ db.accessGrants, scope g = true → g.live (clock i) = g.live (clock 0)) :
    Steady db clock scope (purgeExpiredGrants db (clock 0) scope, k) := by
  intro i
  have hcongr : purgeExpiredGrants (purgeExpiredGrants db (clock 0) scope) (clock i) scope =
      purgeExpiredGrants (purgeExpiredGrants db (clock 0) scope) (clock 0) scope :=
    purgeExpiredGrants_congr fun g hg => hclock i g (mem_purgeExpiredGrants.mp hg).1
  exact hcongr.trans purgeExpiredGrants_idem

theorem serves_shared
    (hclock : ∀ i, ∀ g ∈ db.accessGrants, g.granteeAddress = caller.address → g.live (clock i) = g.live (clock 0)) :
    Serves (sharedPages clock caller)
      (allShared (purgeExpiredGrants db (clock 0) (·.granteeAddress == caller.address)) caller.address)
      (Steady db clock (·.granteeAddress == caller.address)) := by
  refine ⟨fun s hs offset =>
      ⟨(purgeExpiredGrants db (clock 0) (·.granteeAddress == caller.address), s.2 + 1), ?_, ?_⟩,
    fun s hs q s' page hpage => ?_⟩
  · exact steady_purged _ fun i g hg hscope => hclock i g hg (by simpa using hscope)
  · rw [sharedPages, checkPageLimit_pageSize secretPageMax le_rfl]
    simp only
    rw [getSharedSecrets_eq, hs]
    rfl
  · rw [sharedPages] at hpage
    cases hcheck : checkPageLimit secretPageMax q.limit with
    | error fault =>
      rw [hcheck] at hpage
      cases hpage
    | ok u =>
      rw [hcheck] at hpage
      simp only [getSharedSecrets_eq, hs s.2, Prod.mk.injEq, Except.ok.injEq, Option.some.injEq] at hpage
      exact hpage.2.symm

theorem getSecretAccess_eq {d : Database} {now : Time} {limit offset : ℕ} {s : Secret} (hs : s ∈ d.secrets)
    (hid : s.id = secretId) (howner : s.ownerAddress = caller.address) :
    getSecretAccess d now caller secretId limit offset =
      .ok (purgeExpiredGrants d now (·.secretId == secretId), page limit offset
        ((purgeExpiredGrants d now (·.secretId == secretId)).accessGrants.where' (·.secretId == secretId))) := by
  have hload : loadSecret d now secretId caller.address canManageSecret = .ok s := by
    obtain ⟨s', hfind⟩ := Table.find?_isSome (T := d.secrets.toTable) (p := (·.id == secretId)) hs (by simp [hid])
    obtain ⟨hs', hid'⟩ := Table.find?_mem hfind
    obtain rfl : s' = s := Serial.eq_of_key hs' hs ((beq_iff_eq.mp hid').trans hid.symm)
    rw [loadSecret, hfind]
    simp [canManageSecret, canWriteSecret, howner]
  rw [getSecretAccess, hload]
  rfl

theorem serves_access {s₀ : Secret} (hs₀ : s₀ ∈ db.secrets) (hid : s₀.id = secretId)
    (howner : s₀.ownerAddress = caller.address)
    (hclock : ∀ i, ∀ g ∈ db.accessGrants, g.secretId = secretId → g.live (clock i) = g.live (clock 0)) :
    Serves (accessPages clock caller secretId)
      ((purgeExpiredGrants db (clock 0) (·.secretId == secretId)).accessGrants.where' (·.secretId == secretId))
      (fun s => Steady db clock (·.secretId == secretId) s ∧ s.1.secrets = db.secrets) := by
  have hanswer : ∀ s : Answering, Steady db clock (·.secretId == secretId) s ∧ s.1.secrets = db.secrets →
      ∀ limit offset, getSecretAccess s.1 (clock s.2) caller secretId limit offset =
        .ok (purgeExpiredGrants db (clock 0) (·.secretId == secretId), page limit offset
          ((purgeExpiredGrants db (clock 0) (·.secretId == secretId)).accessGrants.where'
            (·.secretId == secretId))) := by
    rintro s ⟨hs, hsecrets⟩ limit offset
    rw [getSecretAccess_eq (hsecrets ▸ hs₀) hid howner, hs]
  refine ⟨fun s hs offset => ⟨(purgeExpiredGrants db (clock 0) (·.secretId == secretId), s.2 + 1), ?_, ?_⟩,
    fun s hs q s' page hpage => ?_⟩
  · exact ⟨steady_purged _ fun i g hg hscope => hclock i g hg (by simpa using hscope), rfl⟩
  · rw [accessPages, checkPageLimit_pageSize grantPageMax (by decide)]
    simp only
    rw [hanswer s hs]
    rfl
  · rw [accessPages] at hpage
    cases hcheck : checkPageLimit grantPageMax q.limit with
    | error fault =>
      rw [hcheck] at hpage
      cases hpage
    | ok u =>
      rw [hcheck] at hpage
      simp only [hanswer s hs, Prod.mk.injEq, Except.ok.injEq, Option.some.injEq] at hpage
      exact hpage.2.symm

end endpoints

/-- Every paged list is read to its end, on a database that does not change. -/
theorem paged_lists_complete (db : Database) (store : MessageStore) (caller : User) (clock : ℕ → Time)
    (hdb : db.Constrained) (hstore : store.Constrained)
    (hclock : ∀ i, ∀ g ∈ db.accessGrants, g.live (clock i) = g.live (clock 0)) :
    ((allWorkflows db caller).length ≤ maxPages * pageSize →
        FetchesAll (workflowPages db caller) () (·.workflow)
          (fun w => w ∈ db.workflows ∧ canReadWorkflow db (some w) caller.address = true) fun w w' => w'.id < w.id) ∧
      ((allConversations store caller.address).length ≤ maxPages * pageSize →
        FetchesAll (conversationPages store caller) () (·.lastMessage) (IsLatest store caller.address)
          fun m m' => m'.createdAt < m.createdAt ∨ m'.createdAt = m.createdAt ∧ m'.id < m.id) ∧
      ((allGroups store caller.address).length ≤ maxPages * pageSize →
        FetchesAll (groupPages store caller) () (·.channel)
          (fun c => c ∈ store.channels ∧ ∃ m ∈ store.members, m.channelId = c.id ∧ m.userAddress = caller.address)
          fun c c' => activity store c' < activity store c ∨ activity store c' = activity store c ∧ c.id < c'.id) ∧
      ((allSecrets db caller.address).length ≤ maxPages * pageSize →
        FetchesAll (secretPages db caller) () (·.id) (IsOwnSecret db caller.address) fun id id' => id' < id) ∧
      ((allShared (purgeExpiredGrants db (clock 0) (·.granteeAddress == caller.address)) caller.address).length ≤
          maxPages * pageSize →
        FetchesAll (sharedPages clock caller) (db, 0) (·.1) (IsSharedGrant db (clock 0) caller.address)
          fun g g' => g'.id < g.id) ∧
      ∀ s ∈ db.secrets, s.ownerAddress = caller.address →
        ((purgeExpiredGrants db (clock 0) (·.secretId == s.id)).accessGrants.where' (·.secretId == s.id)).length ≤
          maxPages * pageSize →
        FetchesAll (accessPages clock caller s.id) (db, 0) id
          (fun g => g ∈ db.accessGrants ∧ g.secretId = s.id ∧ g.live (clock 0) = true) fun g g' => g.id < g'.id := by
  refine ⟨fun hcap => ?_, fun hcap => ?_, fun hcap => ?_, fun hcap => ?_, fun hcap => ?_, fun s hs howner hcap => ?_⟩
  · exact fetchesAll (enumerates_workflows hdb) (serves_reading le_rfl (listMultisigWorkflows_eq hdb)) trivial hcap
  · exact fetchesAll (enumerates_conversations hstore) (serves_reading le_rfl (getConversations_eq hstore)) trivial
      hcap
  · exact fetchesAll enumerates_groups (serves_reading le_rfl listGroups_eq) trivial hcap
  · exact fetchesAll (enumerates_secrets hdb) (serves_reading le_rfl (getSecrets_eq hdb)) trivial hcap
  · exact fetchesAll (enumerates_shared hdb) (serves_shared fun i g hg _ => hclock i g hg)
      (steady_start 0 fun i g hg _ => hclock i g hg) hcap
  · have hall := enumerates_access hdb (clock 0) s.id
    rw [← List.map_id ((purgeExpiredGrants db (clock 0) (·.secretId == s.id)).accessGrants.where' _)] at hall
    exact fetchesAll hall (serves_access hs rfl howner fun i g hg _ => hclock i g hg)
      ⟨steady_start 0 fun i g hg _ => hclock i g hg, rfl⟩ hcap

section sample

def sampleSecret (owner : String) (id : ℕ) : Secret := ⟨id, lower owner, "name", "data"⟩

def sampleGrant (secretId : ℕ) (grantee : String) (id : ℕ) : AccessGrant :=
  ⟨id, secretId, lower grantee, .notJson "wrap", 0, none⟩

def sampleManaged (id : ℕ) : MultisigWorkflow := ⟨id, "w", lower "a", 1, .pending, none, none, none⟩

theorem key_sampleSecret (owner : String) (id : ℕ) : Keyed.key (sampleSecret owner id) = id := rfl

theorem key_sampleGrant (secretId : ℕ) (grantee : String) (id : ℕ) :
    Keyed.key (sampleGrant secretId grantee id) = id := rfl

theorem key_sampleManaged (id : ℕ) : Keyed.key (sampleManaged id) = id := rfl

theorem key_deepMessage (id : ℕ) : Keyed.key (deepMessage id) = id := rfl

/-- Two secrets of the caller, one of them in a workflow. -/
def sampleListed : Database :=
  { Database.empty with
    secrets := (Serial.empty.insert (sampleSecret "a") (key_sampleSecret "a")).insert (sampleSecret "a")
      (key_sampleSecret "a")
    accessGrants := (Serial.empty.insert (sampleGrant 0 "a") (key_sampleGrant 0 "a")).insert (sampleGrant 1 "a")
      (key_sampleGrant 1 "a")
    workflows := Serial.empty.insert sampleManaged key_sampleManaged }

def sampleDms : Messages
  | .dm => Serial.empty.insert deepMessage key_deepMessage
  | .group => Serial.empty

def sampleCorrespondent (name : String) : User := ⟨lower name, "", none, none, none, none, none, none, 0, none, false⟩

/-- A message between two users. -/
def sampleStore : MessageStore where
  users := (Table.empty.insert (sampleCorrespondent "b")).insert (sampleCorrespondent "c")
  tables := sampleDms
  isRead _ := false
  channels := Table.empty
  members := Serial.empty

theorem constrained_sampleListed : sampleListed.Constrained where
  workflowSecret w hw := by
    obtain rfl := List.mem_singleton.mp (show w ∈ [sampleManaged 0] from hw)
    exact ⟨sampleSecret "a" 1, List.mem_cons_of_mem _ List.mem_cons_self, rfl⟩
  oneGrant g hg g' hg' hsecret _ := by
    rcases List.mem_pair.mp (show g ∈ [sampleGrant 0 "a" 0, sampleGrant 1 "a" 1] from hg) with rfl | rfl <;>
      rcases List.mem_pair.mp (show g' ∈ [sampleGrant 0 "a" 0, sampleGrant 1 "a" 1] from hg') with rfl | rfl
    · rfl
    · cases hsecret
    · cases hsecret
    · rfl
  workflowsInOrder := Serial.inOrder_empty.insert key_sampleManaged
  secretsInOrder := (Serial.inOrder_empty.insert (key_sampleSecret "a")).insert (key_sampleSecret "a")
  grantsInOrder := (Serial.inOrder_empty.insert (key_sampleGrant 0 "a")).insert (key_sampleGrant 1 "a")

theorem constrained_sampleStore : sampleStore.Constrained where
  sender m hm := by
    obtain rfl := List.mem_singleton.mp (show m ∈ [deepMessage 0] from hm)
    exact ⟨sampleCorrespondent "c", List.mem_cons_of_mem _ List.mem_cons_self, rfl⟩
  recipient m hm := by
    obtain rfl := List.mem_singleton.mp (show m ∈ [deepMessage 0] from hm)
    exact ⟨sampleCorrespondent "b", List.mem_cons_self, rfl⟩

theorem paged_lists_sample :
    FetchesAll (workflowPages sampleListed Server.sampleReader) () (·.workflow)
        (fun w => w ∈ sampleListed.workflows ∧
          canReadWorkflow sampleListed (some w) Server.sampleReader.address = true)
        (fun w w' => w'.id < w.id) ∧
      FetchesAll (groupPages sampleStore Server.sampleReader) () (·.channel)
        (fun c => c ∈ sampleStore.channels ∧
          ∃ m ∈ sampleStore.members, m.channelId = c.id ∧ m.userAddress = Server.sampleReader.address)
        fun c c' => activity sampleStore c' < activity sampleStore c ∨
          activity sampleStore c' = activity sampleStore c ∧ c.id < c'.id := by
  have hclock : ∀ i, ∀ g ∈ sampleListed.accessGrants, g.live (id i) = g.live (id 0) := by
    intro i g hg
    rcases List.mem_pair.mp (show g ∈ [sampleGrant 0 "a" 0, sampleGrant 1 "a" 1] from hg) with rfl | rfl
    · rfl
    · rfl
  have h := paged_lists_complete sampleListed sampleStore Server.sampleReader id constrained_sampleListed
    constrained_sampleStore hclock
  refine ⟨h.1 ?_, h.2.2.1 ?_⟩
  · exact (List.length_filterMap_le ..).trans (by decide +kernel)
  · rw [allGroups, List.length_map, sortedChannels, List.length_mergeSort]
    decide +kernel

end sample

end Kryptolog.Client
