import Kryptolog.Server.WorkflowInvariant

/-! # What the signers approved

The recipients of a workflow open its secret: the ciphertext and the file chunks. An approval
covers the ciphertext only, and the rest stays what it was as long as every route that writes to
a secret asks whether a workflow manages it. `upload_chunk` does not ask. The payload of a
workflow is the same at the two ends of a run exactly where no step of the run is an accepted
upload to its secret (`payload_eq_iff`).
-/

namespace Kryptolog.Server
set_option autoImplicit false

open Tables Json Fallible Relation Runs

/-- What the recipients of a secret open: the row with its ciphertext, and the chunks. -/
def payload (db : Database) (secretId : ℕ) : Option Secret × List FileChunk :=
  (db.secrets.find? (·.id == secretId), db.fileChunks.where' (·.secretId == secretId))

section

variable {prim : Primitives} {cfg : Config} {db db' : Database} {w w' : MultisigWorkflow}

theorem findSecret_eq {s : Secret} (hs : s ∈ db.secrets) :
    db.secrets.find? (·.id == s.id) = some s := by
  have hkey := Table.find?_key (T := db.secrets.toTable) hs
  simpa only [key_secret, beq_eq_decide] using hkey

/-- The payload is the same where the secret's row and its chunks are. -/
theorem payload_eq {secretId : ℕ} {s : Secret} (hs : s ∈ db.secrets) (hid : s.id = secretId)
    (hs' : s ∈ db'.secrets) (hc : db'.fileChunks.where' (·.secretId == secretId) =
      db.fileChunks.where' (·.secretId == secretId)) :
    payload db' secretId = payload db secretId := by
  subst hid
  rw [payload, payload, findSecret_eq hs, findSecret_eq hs', hc]

/-- A move that adds no chunk to a workflow's secret keeps the payload, unless it removes the
workflow. -/
theorem payload_move {uploads : ℕ → Prop} (hinv : Inv prim db) (hm : Move prim uploads db db')
    (hw : w ∈ db.workflows) (hw' : w' ∈ db'.workflows) (hid : w'.id = w.id)
    (hup : ¬ uploads w.secretId) : payload db' w.secretId = payload db w.secretId := by
  obtain ⟨s, hs, hsid, -⟩ := (hinv.good w hw).secret
  cases hm with
  | messaging db' hsame =>
    obtain ⟨⟨hsec, -, hchunks, -⟩, -⟩ := hsame
    rw [payload, payload, hsec, hchunks]
  | newSecret now owner data => exact payload_eq hs hsid (Serial.mem_insert.mpr (.inl hs)) rfl
  | newWorkflow now owner req _ => exact payload_eq hs hsid (Serial.mem_insert.mpr (.inl hs)) rfl
  | editSecret id name encryptedData hfree =>
    have hne : s.id ≠ id := hsid ▸ ne_of_unmanaged hfree hw
    exact payload_eq hs hsid (Serial.mem_update.mpr ⟨s, hs, by simp [hne]⟩) rfl
  | dropSecret id hfree =>
    have hne : s.id ≠ id := hsid ▸ ne_of_unmanaged hfree hw
    refine payload_eq hs hsid (Serial.mem_delete.mpr ⟨hs, by simpa using hne⟩) ?_
    refine Table.where'_delete fun c _ hc => ?_
    have hcs : c.secretId = w.secretId := by simpa using hc
    simpa [hcs] using ne_of_unmanaged hfree hw
  | uploadChunk secret _ index data iv hup' =>
    have hne : secret.id ≠ w.secretId := fun e => hup (e ▸ hup')
    refine payload_eq hs hsid hs ?_
    simp [Table.where', Serial.insert, hne]
  | complete v r signature now supplied db' happ hc hr =>
    obtain ⟨T, rfl, -⟩ := completeWorkflow_ok hr
    rfl
  | dropWorkflow v hv _ =>
    have hne : w.id ≠ v.id := by simpa [hid] using (Serial.mem_delete.mp hw').2
    have hsecret : w.secretId ≠ v.secretId := fun e => hne (congrArg _ (hinv.secret_inj w hw v hv e))
    refine payload_eq hs hsid (Serial.mem_delete.mpr ⟨hs, by simpa [hsid] using hsecret⟩) ?_
    refine Table.where'_delete fun c _ hc => ?_
    have hcs : c.secretId = w.secretId := by simpa using hc
    simpa [hcs] using hsecret
  | _ => rfl

/-- The workflow at the start of moves, found from its row at their end. -/
theorem Lasting.workflow (h : Lasting db db') (hw : w ∈ db.workflows) (hw' : w' ∈ db'.workflows)
    (hid : w'.id = w.id) : w'.secretId = w.secretId := by
  obtain ⟨v, hv, hsame, -⟩ := h.2 w' hw' (hid ▸ Serial.key_lt hw)
  obtain rfl := Serial.eq_of_key hv hw (hsame.id.symm.trans hid)
  exact hsame.secretId

theorem payload_moves {uploads : ℕ → Prop} (hinv : Inv prim db) (h : Moves prim uploads db db')
    (hw : w ∈ db.workflows) (hw' : w' ∈ db'.workflows) (hid : w'.id = w.id)
    (hup : ¬ uploads w.secretId) : payload db' w.secretId = payload db w.secretId := by
  induction h generalizing w' with
  | refl => rfl
  | @tail mid db' hmoves hm ih =>
    have hlasting := lasting_of_moves hmoves
    have hlt : w'.id < mid.workflows.next := hid ▸ (Serial.key_lt hw).trans_le hlasting.1
    obtain ⟨v, hv, hsame, -⟩ := (lasting_of_move hm).2 w' hw' hlt
    have hvid : v.id = w.id := hsame.id.symm.trans hid
    have hsec := hlasting.workflow hw hv hvid
    have hinv' : Inv prim mid := Moves.invariant (fun _ _ hI hm => hI.move hm) hmoves hinv
    have hmove := payload_move hinv' hm hv hw' hsame.id (hsec ▸ hup)
    rw [← ih hv hvid, ← hsec, hmove]

/-! ## Steps -/

/-- The step is an accepted upload to the secret. -/
def Event.UploadsTo (cfg : Config) (db : Database) (e : Event) (secretId : ℕ) : Prop :=
  ∃ c, e = .call c ∧ c.UploadsTo cfg db secretId

/-- A step without an upload keeps the payload of a workflow that is still there after it. -/
theorem payload_step {e : Event} (hinv : Inv prim db) (hs : Step prim cfg db e db')
    (hw : w ∈ db.workflows) (hw' : w' ∈ db'.workflows) (hid : w'.id = w.id)
    (hup : ¬ e.UploadsTo cfg db w.secretId) : payload db' w.secretId = payload db w.secretId := by
  cases e with
  | call c =>
    obtain rfl : (serve prim cfg db c).1 = db' := hs
    exact payload_moves hinv (serve_moves c) hw hw' hid fun h => hup ⟨c, rfl, h⟩
  | elsewhere =>
    obtain ⟨⟨hsec, -, hchunks, -⟩, -⟩ := hs
    rw [payload, payload, hsec, hchunks]

/-- An upload adds a chunk to the payload. -/
theorem payload_upload {e : Event} {secretId : ℕ} (hs : Step prim cfg db e db')
    (hup : e.UploadsTo cfg db secretId) :
    (payload db' secretId).2.length = (payload db secretId).2.length + 1 := by
  obtain ⟨⟨now, token, request⟩, rfl, caller, hcaller, chunk, hreq, hid, hsecret, hfits⟩ := hup
  subst hreq
  have hok : uploadChunk cfg db now caller chunk = .ok (insertChunk db chunk) :=
    uploadChunk_eq_ok.mpr ⟨hid ▸ hsecret, hfits, rfl⟩
  obtain rfl : insertChunk db chunk = db' := by
    simpa [Step, serve, hcaller, endpoint, committed', committed, hok, Except.map, transaction]
      using hs
  simp [payload, insertChunk, newChunk, Serial.insert, Table.where', hid]

/-- Over one step the payload of a workflow that stays keeps its chunks, and if it gains none the
step uploads none. -/
theorem payload_step_length {e : Event} (hinv : Inv prim db) (hs : Step prim cfg db e db')
    (hw : w ∈ db.workflows) (hw' : w' ∈ db'.workflows) (hid : w'.id = w.id) :
    (payload db w.secretId).2.length ≤ (payload db' w.secretId).2.length ∧
      ((payload db' w.secretId).2.length = (payload db w.secretId).2.length →
        ¬ e.UploadsTo cfg db w.secretId) := by
  by_cases hup : e.UploadsTo cfg db w.secretId
  · have hlen := payload_upload hs hup
    exact ⟨by omega, fun h => by omega⟩
  · rw [payload_step hinv hs hw hw' hid hup]
    exact ⟨le_rfl, fun _ => hup⟩

/-! ## Runs -/

/-- The steps that upload nothing to the secret. -/
abbrev NoUpload (cfg : Config) (secretId : ℕ) : Database → Event → Prop :=
  fun db e => ¬ e.UploadsTo cfg db secretId

theorem payload_run {events : List Event} {secretId : ℕ} (hinv : Inv prim db)
    (hw : w ∈ db.workflows) (hsec : w.secretId = secretId)
    (hrun : Run (restrict (NoUpload cfg secretId) (Step prim cfg)) db events db')
    (hw' : w' ∈ db'.workflows) (hid : w'.id = w.id) :
    payload db' secretId = payload db secretId := by
  induction hrun generalizing w with
  | nil => rfl
  | @cons db mid db' e events hs hrest ih =>
    have hlt : w'.id < mid.workflows.next :=
      hid ▸ (Serial.key_lt hw).trans_le (lasting_of_step hs.2).1
    obtain ⟨v, hv, hsame, -⟩ := (lasting_of_run hrest.of_restrict).2 w' hw' hlt
    have hvid : v.id = w.id := hsame.id.symm.trans hid
    have hvsec : v.secretId = secretId := ((lasting_of_step hs.2).workflow hw hv hvid).trans hsec
    rw [ih (hinv.step hs.2) hv hvsec hw' hsame.id]
    subst hsec
    exact payload_step hinv hs.2 hw hv hvid hs.1

/-- Chunks only come while a workflow stays; a run that leaves their number has no upload. -/
theorem noUpload_of_length {events : List Event} {secretId : ℕ} (hinv : Inv prim db)
    (hw : w ∈ db.workflows) (hsec : w.secretId = secretId)
    (hrun : Run (Step prim cfg) db events db') (hw' : w' ∈ db'.workflows) (hid : w'.id = w.id) :
    (payload db secretId).2.length ≤ (payload db' secretId).2.length ∧
      ((payload db' secretId).2.length = (payload db secretId).2.length →
        Run (restrict (NoUpload cfg secretId) (Step prim cfg)) db events db') := by
  induction hrun generalizing w with
  | nil db => exact ⟨le_rfl, fun _ => .nil db⟩
  | @cons db mid db' e events hs hrest ih =>
    have hlt : w'.id < mid.workflows.next :=
      hid ▸ (Serial.key_lt hw).trans_le (lasting_of_step hs).1
    obtain ⟨v, hv, hsame, -⟩ := (lasting_of_run hrest).2 w' hw' hlt
    have hvid : v.id = w.id := hsame.id.symm.trans hid
    have hvsec : v.secretId = secretId := ((lasting_of_step hs).workflow hw hv hvid).trans hsec
    obtain ⟨hle, hrun⟩ := ih (hinv.step hs) hv hvsec hw' hsame.id
    subst hsec
    obtain ⟨hle', hno⟩ := payload_step_length hinv hs hw hv hvid
    exact ⟨hle'.trans hle, fun heq => .cons ⟨hno (by omega), hs⟩ (hrun (by omega))⟩

/-- From any reachable state, before or after the first approval: while a workflow stays, its
secret and payload are the same at the end of a run exactly where no step of the run uploads to
the secret. -/
theorem payload_eq_iff {events : List Event} (h : Reachable prim cfg db) (hw : w ∈ db.workflows)
    (hrun : Run (Step prim cfg) db events db') (hw' : w' ∈ db'.workflows) (hid : w'.id = w.id) :
    (w'.secretId = w.secretId ∧ payload db' w'.secretId = payload db w.secretId) ↔
      Run (restrict (NoUpload cfg w.secretId) (Step prim cfg)) db events db' := by
  have hinv := Inv.of_reachable h
  have hsec := (lasting_of_run hrun).workflow hw hw' hid
  constructor
  · rintro ⟨-, heq⟩
    rw [hsec] at heq
    exact (noUpload_of_length hinv hw rfl hrun hw' hid).2 (congrArg (·.2.length) heq)
  · intro hno
    have hpay := payload_run hinv hw rfl hno hw' hid
    exact ⟨hsec, by rw [hsec, hpay]⟩

end

/-! ## A chunk after the approval -/

/-- Alice asks Bob and Carol to approve a secret for Carol. -/
def sampleCreateTwo : Call := sampleCall "alice" <| .createWorkflow
  ⟨"deal", ⟨"title", "sealed", .notJson "key of alice"⟩, ["bob", "carol"], ["carol"],
    [("bob", .notJson "key of bob"), ("carol", .notJson "key of carol")],
    [("carol", .notJson "key of carol")], 2⟩

/-- Carol approves it. -/
def sampleSignLast : Call := sampleCall "carol" <| .signWorkflow 0
  ⟨"carol" ++ multisigApprovalMessage 0 0 "sealed", []⟩

/-- Alice uploads a chunk to it. -/
def sampleUpload : Call := sampleCall "alice" <| .uploadChunk ⟨0, 0, "iv", "more"⟩

/-- Bob has approved. -/
def sampleApproved : Database :=
  serveAll samplePrimitives sampleConfig sampleStart [sampleCreateTwo, sampleSign]

/-- Carol has approved too, after the calls. -/
def sampleCompleted (calls : List Call) : Database :=
  serveAll samplePrimitives sampleConfig sampleApproved (calls ++ [sampleSignLast])

/-- What Carol approves after Bob did is what Bob approved. -/
theorem payload_eq_iff_sample :
    ∃ w ∈ sampleApproved.workflows, ∃ w' ∈ (sampleCompleted []).workflows,
      w'.status = .completed ∧
        payload (sampleCompleted []) w'.secretId = payload sampleApproved w.secretId := by
  have hmem : ∃ w ∈ sampleApproved.workflows.rows, ∃ w' ∈ (sampleCompleted []).workflows.rows,
      w'.status = .completed ∧ w'.id = w.id := by decide
  obtain ⟨w, hw, w', hw', hst, hid⟩ := hmem
  have hrun := run_serveAll samplePrimitives sampleConfig [sampleSignLast] sampleApproved
  have hno : Run (restrict (NoUpload sampleConfig w.secretId) (Step samplePrimitives sampleConfig))
      sampleApproved [.call sampleSignLast] (sampleCompleted []) := by
    refine .single ⟨?_, rfl⟩
    rintro ⟨c, hc, _, _, chunk, hreq, -⟩
    obtain rfl := Event.call.inj hc
    cases hreq
  have hsame := (payload_eq_iff (reachable_sample _) hw hrun hw' hid).mpr hno
  exact ⟨w, hw, w', hw', hst, hsame.2⟩

/-- Alice adds a chunk between the two approvals, and the workflow completes with it. -/
theorem payload_changes_after_approval :
    ¬ ∀ db db' events, Reachable samplePrimitives sampleConfig db → ∀ w ∈ db.workflows,
      signedRows db w ≠ [] → Run (Step samplePrimitives sampleConfig) db events db' →
      ∀ w' ∈ db'.workflows, w'.id = w.id → payload db' w'.secretId = payload db w.secretId := by
  intro h
  have hmem : ∃ w ∈ sampleApproved.workflows.rows, (signedRows sampleApproved w).length = 1 ∧
      ∃ w' ∈ (sampleCompleted [sampleUpload]).workflows.rows, w'.status = .completed ∧
        w'.id = w.id ∧
        payload (sampleCompleted [sampleUpload]) w'.secretId ≠ payload sampleApproved w.secretId := by
    decide
  obtain ⟨w, hw, hsigned, w', hw', -, hid, hne⟩ := hmem
  have hsome : signedRows sampleApproved w ≠ [] := fun e => by
    rw [e] at hsigned
    cases hsigned
  exact hne (h _ _ _ (reachable_sample _) w hw hsome (run_serveAll _ _ _ _) w' hw' hid)

end Kryptolog.Server
