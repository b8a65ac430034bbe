import Kryptolog.Server.EraseManifest

/-! # The erase loop of the page

`runErase` of `PQCContext.jsx`. A round reads as many rows of the manifest as one request may carry, signs the
redacted form of each and posts them; it is the last one where the server has nothing more to ask for.

The rate limits of the endpoints count requests in real time and are not modelled.
-/

namespace Kryptolog.Client.EraseLoop
set_option autoImplicit false

open Fallible
open Server (AllReadable Carrier Config Database EraseResponse EraseTarget Fault Genuine ManifestRow Primitives Round
  Scope SignedBy Token User getRedactable leftToRedact listedCarriers manifestOf maxRedactionsPerDelete postErase
  redactionsOf)

/-- `REDACTION_ROUND`. -/
def redactionRound : ℕ := 1000

/-- `MAX_REDACTION_ROUNDS`. -/
def maxRedactionRounds : ℕ := 50

/-- `MANIFEST_PAGE`. -/
def manifestPage : ℕ := 100

/-- What the page erases, and how it signs. -/
structure EraseSession where
  token : Token
  target : EraseTarget
  /-- `signMessage` of the `messageSigningBody` of a row without its ciphertext. -/
  signMessage : ManifestRow → Except String String
  /-- A challenge is fetched, and the erase is signed over it and the keys. -/
  signRound : Database → List (String × String) → Except String Round

/-! ## Reading a round -/

/-- The error that `apiFetch` throws. -/
def requestFailed : Fault → String
  | .http status detail => if detail == "" then s!"Request failed: {status}" else detail
  | .unhandled _ => "Request failed: 500"

/-- The loop of `readRedactionRound`, with the rows that it has. -/
def readRows (page : ℕ → ℕ → Except Fault (List ManifestRow)) (rows : List ManifestRow) :
    Except String (List ManifestRow) :=
  if rows.length < redactionRound then
    let limit := min manifestPage (redactionRound - rows.length)
    match page limit rows.length with
    | .error fault => .error (requestFailed fault)
    | .ok got =>
      if got.length = 0 then .ok rows
      else if got.length < limit then .ok (rows ++ got)
      else readRows page (rows ++ got)
  else .ok rows
termination_by redactionRound - rows.length
decreasing_by
  rw [List.length_append]
  omega

namespace EraseSession

variable (s : EraseSession)

def readRedactionRound (db : Database) : Except String (List ManifestRow) :=
  readRows (getRedactable db s.token s.target) []

def signRedactions (rows : List ManifestRow) : Except String (List (String × String)) :=
  rows.mapM fun row => (s.signMessage row).map fun signature => (row.key, signature)

/-! ## Rounds -/

/-- The name of the request in an error. -/
def what : EraseTarget → String
  | .account => "Deletion"
  | .conversation .. => "Erasing"

/-- `none` where there is more to redact first. -/
def roundOutcome (what : String) : Except Fault EraseResponse → Except String (Option EraseResponse)
  | .ok summary => .ok (if summary.status = .redacting then none else some summary)
  | .error (.http 429 _) => .error ("Too many requests while erasing. " ++
      "Everything removed so far is gone for good — wait a minute and start again to continue where it stopped.")
  -- The detail of a refused body is a list of errors.
  | .error (.http 422 _) => .error "[object Object]"
  | .error (.http status detail) => .error (if detail == "" then s!"{what} failed ({status})" else detail)
  | .error (.unhandled _) => .error s!"{what} failed (500)"

/-- What a run of the loop leaves, posted, and answered or thrown. -/
structure EraseRun where
  db : Database
  posted : List Round
  ended : Except String EraseResponse

def keepsAsking : String := "Could not finish erasing: the server keeps asking for more redactions."

def cannotRedact : String :=
  "Could not finish erasing: the server is holding messages this app cannot redact."

/-- The loop of `runErase`, by the number of rounds that it may still take. -/
def runErase (prim : Primitives) (cfg : Config) : ℕ → Database → EraseRun
  | 0, db => ⟨db, [], .error keepsAsking⟩
  | rounds + 1, db =>
    let signed : Except String (List ManifestRow × Round) := do
      let rows ← s.readRedactionRound db
      let redactions ← s.signRedactions rows
      .ok (rows, ← s.signRound db redactions)
    match signed with
    | .error message => ⟨db, [], .error message⟩
    | .ok (rows, round) =>
      let (db', answer) := postErase prim cfg db round
      match roundOutcome (what s.target) answer with
      | .error message => ⟨db', [round], .error message⟩
      | .ok (some summary) => ⟨db', [round], .ok summary⟩
      | .ok none =>
        if rows.length = 0 then ⟨db', [round], .error cannotRedact⟩
        else
          let rest := runErase prim cfg rounds db'
          ⟨rest.db, round :: rest.posted, rest.ended⟩

/-! ## What a round reads and signs -/

/-- Pages of one list make its beginning. -/
theorem readRows_eq {page : ℕ → ℕ → Except Fault (List ManifestRow)} {manifest rows : List ManifestRow}
    (hpage : ∀ limit offset, 1 ≤ limit → limit ≤ manifestPage →
      page limit offset = .ok ((manifest.drop offset).take limit))
    (hrows : rows = manifest.take rows.length) (hlength : rows.length ≤ redactionRound) :
    readRows page rows = .ok (manifest.take redactionRound) := by
  induction hleft : redactionRound - rows.length using Nat.strong_induction_on generalizing rows with
  | _ left ih =>
    rw [readRows]
    by_cases hmore : rows.length < redactionRound
    · have hpositive : 0 < manifestPage := by decide
      have hgot := hpage (min manifestPage (redactionRound - rows.length)) rows.length (by omega) (by omega)
      generalize hlimit : min manifestPage (redactionRound - rows.length) = limit at hgot ⊢
      rw [if_pos hmore]
      simp only [hgot]
      have hnext : rows ++ (manifest.drop rows.length).take limit = manifest.take (rows.length + limit) := by
        rw [List.take_add, ← hrows]
      have hcount : ((manifest.drop rows.length).take limit).length = min limit (manifest.length - rows.length) := by
        rw [List.length_take, List.length_drop]
      rw [hnext, hcount]
      by_cases hnone : min limit (manifest.length - rows.length) = 0
      · rw [if_pos hnone, List.take_of_length_le (by omega : manifest.length ≤ redactionRound)]
        rw [hrows, List.take_of_length_le (by omega)]
      · rw [if_neg hnone]
        by_cases hshort : min limit (manifest.length - rows.length) < limit
        · rw [if_pos hshort, List.take_of_length_le (by omega), List.take_of_length_le (by omega)]
        · rw [if_neg hshort]
          have htaken : (manifest.take (rows.length + limit)).length = rows.length + limit := by
            rw [List.length_take]
            omega
          exact ih _ (by omega) (by rw [htaken]) (by omega) rfl
    · rw [if_neg hmore, hrows, show rows.length = redactionRound by omega]

variable {s} {prim : Primitives} {cfg : Config} {db : Database} {u : User} {scope : Scope}

/-- Every row can be read, and the page signs the redacted form of each that is listed. -/
structure Signable (s : EraseSession) (prim : Primitives) (db : Database) (u : User) (scope : Scope) : Prop where
  readable : AllReadable db u.address scope
  signs : ∀ c ∈ listedCarriers db u.address scope, ∃ signature, s.signMessage (manifestOf c) = .ok signature ∧
    SignedBy prim u c signature

/-- The session is the user's, and its requests are. -/
structure Submits (s : EraseSession) (prim : Primitives) (cfg : Config) (u : User) (scope : Scope) : Prop where
  token : s.token = ⟨u.address.text, u.tokenVersion⟩
  active : u.active = true
  target : s.target.scope = .ok scope
  signs : ∀ db redactions, u ∈ db.users → ∃ round, s.signRound db redactions = .ok round ∧
    Genuine prim cfg db u s.target scope redactions round

theorem readRedactionRound_eq (hs : s.Submits prim cfg u scope) (hread : AllReadable db u.address scope)
    (hu : u ∈ db.users) : s.readRedactionRound db =
      .ok (((listedCarriers db u.address scope).take redactionRound).map manifestOf) := by
  rw [readRedactionRound, List.map_take]
  refine readRows_eq (fun limit offset hlow hhigh => ?_) rfl (Nat.zero_le _)
  have hcaller : Server.getCurrentUser db s.token = .ok u := by
    rw [hs.token]
    exact Server.getCurrentUser_of_active hu hs.active
  have hlimit : Server.checkLimit limit = .ok () := by
    have hmax : limit ≤ Server.manifestPageMax := hhigh
    rw [Server.checkLimit, if_neg (by omega), if_neg (by omega)]
  rw [getRedactable, hcaller, ok_bind, hlimit, ok_bind, hs.target, ok_bind]
  exact Server.redactableMessages_eq hread hlow

theorem signRedactions_eq {cs : List Carrier} (h : ∀ c ∈ cs, ∃ signature,
    s.signMessage (manifestOf c) = .ok signature ∧ SignedBy prim u c signature) :
    ∃ entries, entries.map Prod.fst = cs ∧ (∀ e ∈ entries, SignedBy prim u e.1 e.2) ∧
      s.signRedactions (cs.map manifestOf) = .ok (redactionsOf entries) := by
  induction cs with
  | nil => exact ⟨[], rfl, by simp, rfl⟩
  | cons c cs ih =>
    obtain ⟨⟨signature, hsign, hsigned⟩, hrest⟩ := List.forall_mem_cons.mp h
    obtain ⟨entries, rfl, hall, hentries⟩ := ih hrest
    refine ⟨(c, signature) :: entries, rfl, List.forall_mem_cons.mpr ⟨hsigned, hall⟩, ?_⟩
    rw [signRedactions, List.map_cons, List.mapM_cons, hsign]
    rw [signRedactions] at hentries
    exact bind_eq_ok.mpr ⟨_, rfl, bind_eq_ok.mpr ⟨_, hentries, rfl⟩⟩

/-! ## Runs -/

/-- A round posts the first rows of the manifest. -/
theorem posted_round (hs : s.Submits prim cfg u scope) (h : s.Signable prim db u scope) (hu : u ∈ db.users) :
    ∃ entries round, s.readRedactionRound db =
        .ok (((listedCarriers db u.address scope).take redactionRound).map manifestOf) ∧
      s.signRedactions (((listedCarriers db u.address scope).take redactionRound).map manifestOf) =
        .ok (redactionsOf entries) ∧
      s.signRound db (redactionsOf entries) = .ok round ∧
      Genuine prim cfg db u s.target scope (redactionsOf entries) round ∧
      entries.map Prod.fst = (listedCarriers db u.address scope).take redactionRound ∧
      ∀ e ∈ entries, SignedBy prim u e.1 e.2 := by
  obtain ⟨entries, hfst, hall, hsigned⟩ :=
    signRedactions_eq fun c hc => h.signs c (List.mem_of_mem_take hc)
  obtain ⟨round, hround, hgenuine⟩ := hs.signs db (redactionsOf entries) hu
  exact ⟨entries, round, readRedactionRound_eq hs h.readable hu, hsigned, hround, hgenuine, hfst, hall⟩

/-- One round: it finishes the run, or leaves the rows after those that it posted. -/
theorem runErase_succ (hs : s.Submits prim cfg u scope) (h : s.Signable prim db u scope) (hu : u ∈ db.users)
    (rounds : ℕ) : ∃ (round : Round) (out : Database × EraseResponse),
      round.request.redactions.length ≤ redactionRound ∧
      (leftToRedact db u.address scope ≤ redactionRound → out.2.status ≠ .redacting ∧
        s.runErase prim cfg (rounds + 1) db = ⟨out.1, [round], .ok out.2⟩) ∧
      (redactionRound < leftToRedact db u.address scope → u ∈ out.1.users ∧ s.Signable prim out.1 u scope ∧
        leftToRedact out.1 u.address scope = leftToRedact db u.address scope - redactionRound ∧
        (s.runErase prim cfg (rounds + 1) db).db = (s.runErase prim cfg rounds out.1).db ∧
        (s.runErase prim cfg (rounds + 1) db).posted = round :: (s.runErase prim cfg rounds out.1).posted ∧
        (s.runErase prim cfg (rounds + 1) db).ended = (s.runErase prim cfg rounds out.1).ended) := by
  obtain ⟨entries, round, hread, hsigned, hround, hgenuine, hfst, hall⟩ := posted_round hs h hu
  obtain ⟨out, hpost, hdone, hmore⟩ := Server.postErase_listed h.readable hfst hall (le_refl _) hgenuine hu
    hs.active hs.target
  have hlength : entries.length = min redactionRound (leftToRedact db u.address scope) := by
    rw [← List.length_map Prod.fst, hfst, List.length_take, Server.length_listedCarriers]
  refine ⟨round, out, ?_, fun hle => ?_, fun hlt => ?_⟩
  · rw [hgenuine.carries, redactionsOf, List.length_map, hlength]
    exact Nat.min_le_left _ _
  · have hstatus := hdone hle
    refine ⟨hstatus, ?_⟩
    rw [runErase]
    simp only [hread, ok_bind, hsigned, hround, hpost, roundOutcome, if_neg hstatus]
  · obtain ⟨hstatus, husers, hreadable, hlisted⟩ := hmore hlt
    have hrows : (((listedCarriers db u.address scope).take redactionRound).map manifestOf).length ≠ 0 := by
      have hpositive : 0 < redactionRound := by decide
      rw [List.length_map, List.length_take, Server.length_listedCarriers]
      omega
    have hrun : s.runErase prim cfg (rounds + 1) db = ⟨(s.runErase prim cfg rounds out.1).db,
        round :: (s.runErase prim cfg rounds out.1).posted, (s.runErase prim cfg rounds out.1).ended⟩ := by
      rw [runErase]
      simp only [hread, ok_bind, hsigned, hround, hpost, roundOutcome, if_pos hstatus, if_neg hrows]
    have hsignable : s.Signable prim out.1 u scope :=
      ⟨hreadable, fun c hc => h.signs c (List.mem_of_mem_drop (hlisted ▸ hc))⟩
    refine ⟨husers, hsignable, ?_, by rw [hrun], by rw [hrun], by rw [hrun]⟩
    rw [← Server.length_listedCarriers, hlisted, List.length_drop, Server.length_listedCarriers]

/-- How a run ends that has so many rounds to take. -/
structure RunsOut (rounds : ℕ) (db : Database) (u : User) (scope : Scope) (run : EraseRun) : Prop where
  bounded : ∀ round ∈ run.posted, round.request.redactions.length ≤ maxRedactionsPerDelete
  count : run.posted.length ≤ rounds
  finished : 0 < rounds → leftToRedact db u.address scope ≤ rounds * redactionRound →
    ∃ summary, run.ended = .ok summary ∧ summary.status ≠ .redacting
  stopped : rounds * redactionRound < leftToRedact db u.address scope → run.ended = .error keepsAsking ∧
    leftToRedact run.db u.address scope = leftToRedact db u.address scope - rounds * redactionRound

/-- Every round takes its share of the rows, by induction on the rounds. -/
theorem runErase_runsOut (hs : s.Submits prim cfg u scope) (h : s.Signable prim db u scope) (hu : u ∈ db.users)
    (rounds : ℕ) : RunsOut rounds db u scope (s.runErase prim cfg rounds db) := by
  induction rounds generalizing db with
  | zero =>
    refine ⟨by simp [runErase], le_refl _, fun h => absurd h (lt_irrefl _), fun _ => ⟨rfl, ?_⟩⟩
    rw [Nat.zero_mul, Nat.sub_zero]
    rfl
  | succ rounds ih =>
    obtain ⟨round, out, hsize, hlast, hnext⟩ := runErase_succ hs h hu rounds
    have hround : round.request.redactions.length ≤ maxRedactionsPerDelete := hsize
    have hmul : (rounds + 1) * redactionRound = rounds * redactionRound + redactionRound := Nat.succ_mul _ _
    rcases Nat.lt_or_ge redactionRound (leftToRedact db u.address scope) with hlt | hle
    · obtain ⟨husers, hsignable, hleft, hdb, hposted, hended⟩ := hnext hlt
      have hrest := ih hsignable husers
      refine ⟨?_, ?_, fun _ hfew => ?_, fun hmany => ?_⟩
      · rw [hposted]
        exact List.forall_mem_cons.mpr ⟨hround, hrest.bounded⟩
      · rw [hposted, List.length_cons]
        exact Nat.succ_le_succ hrest.count
      · have hpositive : 0 < rounds := by
          rcases Nat.eq_zero_or_pos rounds with rfl | hpos
          · omega
          · exact hpos
        rw [hended]
        exact hrest.finished hpositive (by omega)
      · obtain ⟨hend, hrows⟩ := hrest.stopped (by omega)
        rw [hended, hdb]
        exact ⟨hend, by omega⟩
    · obtain ⟨hstatus, hrun⟩ := hlast hle
      rw [hrun]
      refine ⟨?_, by simp, fun _ _ => ⟨out.2, rfl, hstatus⟩, fun hmany => ?_⟩
      · exact List.forall_mem_singleton.mpr hround
      · omega

/-- The pages of the manifest list the keys, each once, and the loop over them finishes an erase of at most
50 rounds; a longer one is cut off after them. -/
theorem erase_loop_over_pages (prim : Primitives) (cfg : Config) :
    (∀ (db : Database) (a : Server.Address) (scope : Scope) (limit count : ℕ), 0 < limit →
      (Server.ownMessages db a scope).length ≤ count * limit →
      ((List.range count).mapM fun i => Server.redactableMessages db a limit (i * limit) scope).map
        (fun pages => pages.flatten.map ManifestRow.key) = Server.redactionKeys db a scope) ∧
    (∀ (db : Database) (a : Server.Address) (scope : Scope) (keys : List String),
      Server.redactionKeys db a scope = .ok keys → keys.Nodup) ∧
    ∀ (s : EraseSession) (db : Database) (u : User) (scope : Scope), u ∈ db.users →
      s.Submits prim cfg u scope → s.Signable prim db u scope →
      RunsOut maxRedactionRounds db u scope (s.runErase prim cfg maxRedactionRounds db) :=
  ⟨fun _ _ _ _ _ hlimit hcount => Server.map_pages_eq_redactionKeys hlimit hcount,
    fun _ _ _ _ hkeys => Server.nodup_redactionKeys hkeys,
    fun _ _ _ _ hu hs h => runErase_runsOut hs h hu _⟩

end EraseSession

/-! ## More messages than the rounds take -/

section sample

open Server (Kind Message challengeFor samplePayload sampleConfig sampleWriter)

/-- One of the writer's messages. -/
def sentMessage (id : ℕ) : Message :=
  ⟨id, sampleWriter.address, (Server.sampleAddress 'b').text, .json (samplePayload 0)⟩

theorem nodup_sentMessages (n : ℕ) : (((List.range n).map sentMessage).map Message.id).Nodup := by
  rw [List.map_map]
  exact List.nodup_range.map fun _ _ h => h

theorem id_sentMessage_lt (n : ℕ) : ∀ row ∈ (List.range n).map sentMessage, row.id < n := by
  intro row hrow
  obtain ⟨i, hi, rfl⟩ := List.mem_map.mp hrow
  exact List.mem_range.mp hi

/-- The writer has sent `n` messages. -/
def sentStore (n : ℕ) : Database where
  __ := Database.empty
  users := (Server.sampleSent 0).users
  messages := ⟨⟨(List.range n).map sentMessage, nodup_sentMessages n⟩, n, id_sentMessage_lt n⟩

theorem ownMessages_sentStore (n : ℕ) : Server.ownMessages (sentStore n) sampleWriter.address none =
    (List.range n).map fun i => (Kind.dm, sentMessage i) := by
  have hrows : ((List.range n).map sentMessage).filter
      (fun row => row.senderAddress == sampleWriter.address && Server.inScope .dm row none) =
      (List.range n).map sentMessage := by
    rw [List.filter_eq_self]
    intro row hrow
    obtain ⟨i, -, rfl⟩ := List.mem_map.mp hrow
    rw [Bool.and_eq_true]
    exact ⟨beq_self_eq_true _, rfl⟩
  have hmap : (((List.range n).map sentMessage).filter
      (fun row => row.senderAddress == sampleWriter.address && Server.inScope .dm row none)).map
        (fun row => (Kind.dm, row)) ++ [] = (List.range n).map fun i => (Kind.dm, sentMessage i) := by
    rw [hrows, List.map_map, List.append_nil]
    rfl
  exact hmap

theorem selected_sentMessage (i : ℕ) :
    Server.selectedCarrier Server.isListed (.dm, sentMessage i) = some (.dm, sentMessage i, samplePayload 0) := by
  have hlisted : Server.isListed (samplePayload 0) = true := by decide
  exact congrArg (fun b => if b then some (Kind.dm, sentMessage i, samplePayload 0) else none) hlisted

theorem listedCarriers_sentStore (n : ℕ) : listedCarriers (sentStore n) sampleWriter.address none =
    (List.range n).map fun i => (Kind.dm, sentMessage i, samplePayload 0) := by
  rw [listedCarriers, ownMessages_sentStore, List.filterMap_map, ← List.filterMap_eq_map]
  exact List.filterMap_congr fun i _ => selected_sentMessage i

theorem leftToRedact_sentStore (n : ℕ) : leftToRedact (sentStore n) sampleWriter.address none = n := by
  rw [← Server.length_listedCarriers, listedCarriers_sentStore, List.length_map, List.length_range]

theorem deliverable_sentStore (n : ℕ) : Server.Deliverable (sentStore n) sampleWriter.address where
  sender := Server.isValidAddress_sampleAddress (c := 'a') (by decide) (by decide)
  recipient := fun row hrow _ => by
    obtain ⟨i, -, rfl⟩ := List.mem_map.mp hrow
    have htarget : Server.lowerText (sentMessage i).target = (Server.sampleAddress 'b').text :=
      (Server.sampleAddress 'b').lowered
    rw [htarget]
    exact Server.isValidAddress_sampleAddress (by decide) (by decide)
  channel := fun _ h => by cases h

theorem redactable_sentMessage (i : ℕ) : Server.Redactable .dm (sentMessage i) (samplePayload 0) := by
  have hts : (samplePayload 0).get "ts" = some (.int 0) := rfl
  have hseq : (samplePayload 0).get "seq" = some (.int 0) := rfl
  refine ⟨fun z hz => ?_, fun z hz => ?_, (fun _ h => by cases h)⟩
  · rw [hts] at hz
    cases hz
    decide
  · rw [hseq] at hz
    cases hz
    decide

/-- A page that signs with the writer's key. -/
def writerSession : EraseSession where
  token := ⟨sampleWriter.address.text, sampleWriter.tokenVersion⟩
  target := .account
  signMessage row :=
    (Server.messageSigningBody Server.samplePrimitives sampleWriter.address.text row.conv row.gid (some row.sid)
      (some row.ts) (some row.seq) row.keys).map fun body => "writer" ++ body
  signRound _ redactions :=
    (Server.accountDeletionMessage Server.samplePrimitives "0" .erase (redactions.map (·.1)) "https://sample"
      sampleConfig.deploymentId).map fun message =>
        ⟨challengeFor sampleWriter.address, 0, ⟨sampleWriter.address.text, sampleWriter.tokenVersion⟩, .account,
          ⟨"0", "https://sample", sampleConfig.deploymentId, "writer" ++ message, redactions⟩⟩

theorem writerSession_submits : writerSession.Submits Server.samplePrimitives sampleConfig sampleWriter none where
  token := rfl
  active := rfl
  target := rfl
  signs := fun db redactions hu => by
    obtain ⟨message, hmessage⟩ : ∃ message, Server.accountDeletionMessage Server.samplePrimitives "0" .erase
        (redactions.map (·.1)) "https://sample" sampleConfig.deploymentId = .ok message := by
      have hnonce : Server.isHex "0" = true := by decide
      have horigin : Server.isCanonicalOrigin "https://sample" = true := by decide
      have hdeployment : Server.isSignedIdentifierText sampleConfig.deploymentId = true := by decide
      simp only [Server.accountDeletionMessage, refuseIf, hnonce, horigin, hdeployment]
      exact ⟨_, rfl⟩
    have hround : writerSession.signRound db redactions = .ok ⟨challengeFor sampleWriter.address, 0,
        ⟨sampleWriter.address.text, sampleWriter.tokenVersion⟩, .account,
        ⟨"0", "https://sample", sampleConfig.deploymentId, "writer" ++ message, redactions⟩⟩ := by
      simp only [writerSession, hmessage]
      rfl
    have hserver : Server.checkSignedForThisServer sampleConfig "https://sample" sampleConfig.deploymentId =
        .ok () := by decide
    exact ⟨_, hround, rfl, rfl, Server.getCurrentUser_of_active hu rfl, Server.claimNonce_challengeFor db _,
      hserver, message, hmessage, beq_self_eq_true _⟩

theorem writerSession_signMessage (i : ℕ) :
    writerSession.signMessage (manifestOf (.dm, sentMessage i, samplePayload 0)) =
      (Server.redactionBody Server.samplePrimitives sampleWriter.address (.dm, sentMessage i, samplePayload 0)).map
        fun body => "writer" ++ body := by
  have hsid : some (((samplePayload 0).get "sid").getD .null) = (samplePayload 0).get "sid" := rfl
  have hts : some (((samplePayload 0).get "ts").getD .null) = (samplePayload 0).get "ts" := rfl
  have hseq : some (((samplePayload 0).get "seq").getD .null) = (samplePayload 0).get "seq" := rfl
  simp only [writerSession, manifestOf, Server.manifestRow, Server.redactionBody, hsid, hts, hseq]

theorem writerSession_signable (n : ℕ) :
    writerSession.Signable Server.samplePrimitives (sentStore n) sampleWriter none where
  readable := by
    rw [AllReadable, ownMessages_sentStore]
    intro c hc
    obtain ⟨i, -, rfl⟩ := List.mem_map.mp hc
    rfl
  signs := by
    rw [listedCarriers_sentStore]
    intro c hc
    obtain ⟨i, hi, rfl⟩ := List.mem_map.mp hc
    have hown : (Kind.dm, sentMessage i) ∈ Server.ownMessages (sentStore n) sampleWriter.address none := by
      rw [ownMessages_sentStore]
      exact List.mem_map_of_mem hi
    obtain ⟨body, hbody⟩ := Server.redactionBody_ok Server.samplePrimitives (deliverable_sentStore n) hown (by decide)
      (redactable_sentMessage i)
    refine ⟨"writer" ++ body, ?_, rfl, body, hbody, beq_self_eq_true _⟩
    rw [writerSession_signMessage, hbody]
    rfl

/-- 2500 messages take three rounds at most of the 50. -/
theorem erase_loop_over_pages_sample : ∃ summary, (writerSession.runErase Server.samplePrimitives sampleConfig
    maxRedactionRounds (sentStore 2500)).ended = .ok summary ∧ summary.status ≠ .redacting := by
  have hrun := (EraseSession.erase_loop_over_pages Server.samplePrimitives sampleConfig).2.2 writerSession
    (sentStore 2500) sampleWriter none (List.mem_singleton_self _) writerSession_submits (writerSession_signable 2500)
  refine hrun.finished (by decide) ?_
  rw [leftToRedact_sentStore]
  decide

/-- An erase of 50001 messages is not finished. -/
theorem not_erase_loop_finishes :
    ¬ ∀ (s : EraseSession) (db : Database) (u : User) (scope : Scope), u ∈ db.users →
      s.Submits Server.samplePrimitives sampleConfig u scope → s.Signable Server.samplePrimitives db u scope →
      ∃ summary, (s.runErase Server.samplePrimitives sampleConfig maxRedactionRounds db).ended = .ok summary ∧
        summary.status ≠ .redacting := by
  intro h
  obtain ⟨summary, hended, -⟩ := h writerSession (sentStore 50001) sampleWriter none (List.mem_singleton_self _)
    writerSession_submits (writerSession_signable 50001)
  have hrun := EraseSession.runErase_runsOut writerSession_submits (writerSession_signable 50001)
    (List.mem_singleton_self _) maxRedactionRounds
  have hmany : maxRedactionRounds * redactionRound < leftToRedact (sentStore 50001) sampleWriter.address none := by
    rw [leftToRedact_sentStore]
    decide
  rw [(hrun.stopped hmany).1] at hended
  cases hended

end sample

end Kryptolog.Client.EraseLoop
