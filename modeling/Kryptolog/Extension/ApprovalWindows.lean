import Kryptolog.Extension.Turns

/-! # The approval window

The worker of the extension with the browser's side of its approval windows: which are open, and what the
browser answers where one is focused or created. The user may close a window at any time, and the worker is told
of it at once.
-/

namespace Kryptolog.Extension
set_option autoImplicit false

open Script Runs Tasks
open Client (Kdf VaultKey)

/-- The worker, and the browser that it runs in. -/
structure Browser where
  worker : State Background ExtensionTask
  /-- The approval windows that are open. -/
  windows : List ℕ
  /-- All that were ever opened: an id is not used twice. -/
  opened : List ℕ
  /-- The window that each message tries to focus. -/
  target : ℕ → Option ℕ

section browser

variable (prim : ExtensionPrimitives)

/-- What the browser makes of a turn: a window is focused where it is open, and a new one has a new id. -/
def Browser.resume (s : Browser) (i : ℕ) (worker : State Background ExtensionTask) : Option Browser :=
  match (s.worker.task i).map ExtensionTask.point with
  | some (.focusing _ focuses) =>
    if focuses = (s.target i).any s.windows.contains then some { s with worker := worker } else none
  | some (.creating (some windowId)) =>
    if s.opened.contains windowId then none
    else
      some { s with
        worker := worker
        windows := windowId :: s.windows
        opened := windowId :: s.opened }
  | _ =>
    some { s with
      worker := worker
      target := Function.update s.target i s.worker.shared.approvalWindowId }

/-- The worker is not restarted. -/
def Browser.step (s : Browser) (a : Action Call) : Option Browser :=
  ((extension prim).step s.worker a).bind fun worker =>
    match a with
    | .call (.windowRemoved windowId) =>
      some { s with
        worker := worker
        windows := s.windows.filter (· != windowId) }
    | .call _ => some { s with worker := worker }
    | .resume i => s.resume i worker
    | .restart => none

/-- A worker that has no requests and no window. -/
def Browser.start (c : Background) : Browser := ⟨.start c, [], [], fun _ => none⟩

end browser

/-! ## The property -/

def Point.isCreating : Point → Bool
  | .creating _ => true
  | _ => false

/-- A window is being created. -/
def Creating (s : State Background ExtensionTask) : Prop := ∃ i t, s.task i = some t ∧ t.point.isCreating = true

/-- One window is open at most, and it is the one that is tracked; a request waits where there is a window, or
one is on its way. -/
structure OneWindow (s : Browser) : Prop where
  one : s.windows.length ≤ 1
  tracked : ∀ w ∈ s.windows, s.worker.shared.approvalWindowId = some w
  served : s.worker.shared.pendingRequests ≠ [] → s.windows ≠ [] ∨ Creating s.worker

/-- Where the user closes an approval window, all that waits is rejected. -/
def RejectsOnClose (prim : ExtensionPrimitives) (s : Browser) : Prop :=
  ∀ w ∈ s.windows, ∀ s', s.step prim (.call (.windowRemoved w)) = some s' →
    s'.worker.shared.pendingRequests = [] ∧
    ∀ p ∈ s.worker.shared.pendingRequests, (p.owner, .failed (lit "Approval window closed")) ∈
      s'.worker.shared.responses

/-! ## The condition -/

/-- The turn goes on to create an approval window. -/
def beginsCreation (prim : ExtensionPrimitives) (c : Background) (t : ExtensionTask) : Bool :=
  (t.point.resume prim t.caller c).any fun out => out.2.isCreating

/-- Where a window is created, none is tracked, and none is being created. -/
def CreatesAlone (prim : ExtensionPrimitives) (s : Browser) : Action Call → Prop
  | .resume i => ∀ t, s.worker.task i = some t → beginsCreation prim s.worker.shared t = true →
    s.worker.shared.approvalWindowId = none ∧ ¬ Creating s.worker
  | _ => True

/-! ## What a turn does to the window -/

/-- The window and the queue are left alone, but for requests that are settled. -/
structure Calm (c d : Background) : Prop where
  window : d.approvalWindowId = c.approvalWindowId
  pending : ∀ p ∈ d.pendingRequests, p ∈ c.pendingRequests

theorem Calm.refl (c : Background) : Calm c c := ⟨rfl, fun _ hp => hp⟩

theorem Calm.trans {c d e : Background} (h : Calm c d) (h' : Calm d e) : Calm c e :=
  ⟨h'.window.trans h.window, fun p hp => h.pending p (h'.pending p hp)⟩

/-- The turn is calm, and is not on the way to a window. -/
structure CalmTurn (c : Background) (out : Background × Point) : Prop where
  calm : Calm c out.1
  notCreating : out.2.isCreating = false

variable {prim : ExtensionPrimitives} {c d : Background} {caller : Caller} {out : Background × Point} {owner : ℕ}

theorem CalmTurn.after (h : CalmTurn d out) (hcalm : Calm c d) : CalmTurn c out :=
  ⟨hcalm.trans h.calm, h.notCreating⟩

theorem calm_respond (c : Background) (owner : ℕ) (r : Response) : Calm c (c.respond owner r) :=
  ⟨rfl, fun _ hp => hp⟩

theorem calm_answer (c : Background) (owner : ℕ) (r : Response) : CalmTurn c (answer c owner r) :=
  ⟨calm_respond .., rfl⟩

theorem calm_throw (c : Background) (owner : ℕ) (error : String) : CalmTurn c (throw c owner error) :=
  calm_answer ..

theorem calm_removePending (c : Background) (owner : ℕ) : Calm c (c.removePending owner) :=
  ⟨rfl, fun _ hp => List.mem_of_mem_filter hp⟩

theorem calm_reject (c : Background) (owner : ℕ) (error : Text) : Calm c (c.reject owner error) := by
  unfold Background.reject
  split
  · exact .refl c
  · exact (calm_removePending ..).trans (calm_respond ..)

theorem calm_endHandler (c : Background) (p : Pending) (by_ : ℕ) (r : Option Response) :
    CalmTurn c (c.endHandler p by_ r, .done) := by
  cases r <;> exact ⟨⟨rfl, fun _ hp => hp⟩, rfl⟩

theorem calm_sealVault (c : Background) (owner : ℕ) (after : After) (removes : Option Removal)
    (key : VaultKey × Kdf) (fresh stores : Bool) :
    CalmTurn c (sealVault c owner after removes key fresh stores) := ⟨⟨rfl, fun _ hp => hp⟩, rfl⟩

theorem save_calm {after : After} {removes : Option Removal} {inputs : Inputs}
    (h : saveVaultWithSessionKey c owner after removes inputs = .ok out) : CalmTurn c out := by
  unfold saveVaultWithSessionKey at h
  split at h
  · cases h
    exact ⟨.refl c, rfl⟩
  · cases h
  · cases h
    exact calm_sealVault ..

theorem calm_saveAndRespond (c : Background) (owner : ℕ) (r : Response) (removes : Option Removal)
    (inputs : Inputs) : CalmTurn c (saveAndRespond c owner r removes inputs) := by
  unfold saveAndRespond
  split
  · exact calm_throw ..
  · next h => exact save_calm h

theorem calm_saveInHandler (c : Background) (by_ : ℕ) (p : Pending) (after : After) (inputs : Inputs) :
    CalmTurn c (saveInHandler c by_ p after inputs) := by
  unfold saveInHandler
  split
  · exact calm_endHandler ..
  · next h => exact save_calm h

theorem calm_setVault (c : Background) (v : ExtensionVault) : Calm c (c.setVault v) := ⟨rfl, fun _ hp => hp⟩

theorem calm_onApprove (c : Background) (by_ : ℕ) (p : Pending) (inputs : Inputs) :
    CalmTurn c (onApprove prim c by_ p inputs) := by
  unfold onApprove
  split
  · exact calm_endHandler ..
  · split
    · exact (calm_saveInHandler ..).after (calm_setVault ..)
    · split
      · exact calm_endHandler ..
      · split
        · exact calm_endHandler ..
        · exact ⟨.refl c, rfl⟩
    · split
      · exact calm_endHandler ..
      · split
        · exact calm_endHandler ..
        · exact ⟨.refl c, rfl⟩
    · split
      · exact calm_endHandler ..
      · split
        · exact calm_endHandler ..
        · exact ⟨.refl c, rfl⟩
    · split
      · exact calm_endHandler ..
      · exact ⟨.refl c, rfl⟩
    · split
      · exact calm_endHandler ..
      · exact ⟨.refl c, rfl⟩
    · split
      · exact calm_endHandler ..
      · split
        · split
          · exact calm_endHandler ..
          · exact (calm_saveInHandler ..).after (calm_setVault ..)
        · exact calm_endHandler ..

theorem calm_settleApproval (c : Background) (by_ requestId : ℕ) (approved : Bool) (inputs : Inputs) :
    CalmTurn c (settleApproval prim c by_ requestId approved inputs) := by
  unfold settleApproval
  split
  · exact calm_answer ..
  · next p hp =>
    split
    · refine (calm_onApprove ..).after ((calm_removePending c p.owner).trans ?_)
      exact ⟨rfl, fun _ hq => hq⟩
    · exact (calm_answer ..).after (calm_reject ..)

theorem calm_failSync (c : Background) (owner : ℕ) (what : Syncing) (error : String) :
    CalmTurn c (failSync c owner what error) := by
  cases what with
  | unlock => exact calm_throw ..
  | initialization => exact ⟨⟨rfl, fun _ hp => hp⟩, rfl⟩

theorem calm_endSync (c : Background) (owner : ℕ) (what : Syncing) : CalmTurn c (endSync c owner what) := by
  cases what with
  | unlock => exact calm_answer ..
  | initialization => exact ⟨⟨rfl, fun _ hp => hp⟩, rfl⟩

theorem calm_startSync (c : Background) (owner : ℕ) (what : Syncing) (inputs : Inputs) :
    CalmTurn c (startSync prim c owner what inputs) := by
  unfold startSync
  split
  · exact calm_endSync ..
  · exact ⟨.refl c, rfl⟩

theorem calm_startUnlock (c : Background) (owner : ℕ) (what : Unlocking) (password : Text) (inputs : Inputs) :
    CalmTurn c (startUnlock c owner what password inputs) := by
  unfold startUnlock
  split
  · exact calm_throw ..
  · exact ⟨.refl c, rfl⟩

theorem calm_finishImport (c : Background) (caller : Caller) (data : Except Text ExtensionVault)
    (password : Option Text) (inputs : Inputs) : CalmTurn c (finishImport c caller data password inputs) := by
  have hmerged : ∀ imported, Calm c { (mergeImport c caller imported).markUnlocked caller with
      hasPassword := true } := by
    intro imported
    unfold mergeImport
    split <;> exact ⟨rfl, fun _ hp => hp⟩
  unfold finishImport
  split
  · exact calm_answer ..
  · next imported =>
    simp only
    split
    · exact ⟨hmerged imported, rfl⟩
    · split
      · exact (calm_throw ..).after (hmerged imported)
      · next h => exact (save_calm h).after (hmerged imported)

theorem calm_finishSave (c : Background) (caller : Caller) (after : After) :
    CalmTurn c (finishSave c caller after) := by
  unfold finishSave
  cases after with
  | respond r => exact calm_answer ..
  | setUp password inputs => exact (calm_startUnlock ..).after ⟨rfl, fun _ hp => hp⟩
  | imported =>
    simp only
    split
    · exact calm_throw ..
    · split
      · exact calm_throw ..
      · exact calm_answer ..
  | synced what =>
    simp only
    split
    · exact calm_failSync ..
    · exact calm_endSync ..
  | connected p => exact calm_endHandler ..
  | rotated p active rotated ts now => exact ⟨⟨rfl, fun _ hp => hp⟩, rfl⟩

theorem calm_failSave (c : Background) (caller : Caller) (after : After) : CalmTurn c (failSave c caller after) := by
  cases after with
  | respond | setUp | imported => exact calm_throw ..
  | synced what => exact calm_failSync ..
  | connected | rotated => exact calm_endHandler ..

/-- What a turn does to the approval window. -/
inductive WindowTurn (c : Background) (owner : ℕ) : Point → Background × Point → Prop
  | calm {p : Point} {out : Background × Point} (hp : p.isCreating = false) (h : CalmTurn c out) :
    WindowTurn c owner p out
  | asks {p : Point} (origin : Text) (approval : Approval) (window : Option ℕ) (hp : p.isCreating = false)
    (hwindow : c.approvalWindowId = none) : WindowTurn c owner p
      ({ c with pendingRequests := c.pendingRequests ++ [⟨owner, origin, approval⟩] }, .creating window)
  | joins {p : Point} {w : ℕ} (origin : Text) (approval : Approval) (window : Option ℕ) (focuses : Bool)
    (hp : p.isCreating = false) (hwindow : c.approvalWindowId = some w) : WindowTurn c owner p
      ({ c with pendingRequests := c.pendingRequests ++ [⟨owner, origin, approval⟩] }, .focusing window focuses)
  | tracksNone (window : Option ℕ) :
    WindowTurn c owner (.focusing window false) ({ c with approvalWindowId := none }, .creating window)
  | tracks (windowId : ℕ) :
    WindowTurn c owner (.creating (some windowId)) ({ c with approvalWindowId := some windowId }, .done)
  | givesUp :
    WindowTurn c owner (.creating none) (c.reject owner (lit "Could not open the approval window"), .done)

theorem CalmTurn.window {p : Point} (h : CalmTurn c out) (hp : p.isCreating = false) : WindowTurn c owner p out :=
  .calm hp h

theorem CalmTurn.windowAfter {p : Point} (h : CalmTurn d out) (hp : p.isCreating = false) (hcalm : Calm c d) :
    WindowTurn c owner p out := .calm hp (h.after hcalm)

theorem windowTurn_requestApproval {p : Point} (hp : p.isCreating = false) (origin : Text) (approval : Approval)
    (inputs : Inputs) : WindowTurn c owner p (requestApproval c owner origin approval inputs) := by
  unfold requestApproval
  split
  · exact (calm_throw ..).window hp
  · split
    · exact (calm_answer ..).window hp
    · unfold openApprovalWindow
      split
      · next w hw => exact .joins origin approval inputs.window inputs.focuses hp hw
      · next hnone => exact .asks origin approval inputs.window hp hnone

theorem windowTurn_dispatched {sender : Sender} {request : Request} {inputs : Inputs} {p : Point}
    (h : Dispatched prim c caller sender request inputs out) (hp : p.isCreating = false) :
    WindowTurn c caller.number p out := by
  cases h with
  | answered rotation r =>
    refine (calm_answer ..).windowAfter hp ?_
    exact ⟨rfl, fun _ hq => hq⟩
  | waits q hq =>
    refine CalmTurn.window ⟨.refl c, ?_⟩ hp
    cases q <;> first | rfl | cases hq
  | unlocks | decryptsImport | signs => exact CalmTurn.window ⟨.refl c, rfl⟩ hp
  | setsUp | locks => exact CalmTurn.window ⟨⟨rfl, fun _ hq => hq⟩, rfl⟩ hp
  | changes rotation removes withdrawn v w hopen hv hchanged hremoves hrequest =>
    refine (calm_saveAndRespond ..).windowAfter hp ?_
    exact ⟨rfl, fun _ hq => hq⟩
  | imports data password hopen hv hmay => exact (calm_finishImport ..).window hp
  | asks origin approval v hopen hv horigin hasked => exact windowTurn_requestApproval hp ..
  | settles requestId approved hrequest => exact (calm_settleApproval ..).window hp

theorem windowTurn_resume {p : Point} (h : Point.resume prim caller c p = some out) :
    WindowTurn c caller.number p out := by
  cases p with
  | arrived sender request inputs =>
    simp only [Point.resume] at h
    split at h
    · cases h
      exact windowTurn_dispatched dispatch_dispatched rfl
    · cases h
      exact (calm_throw ..).window rfl
    · cases h
    · cases h
  | focusingPopup window focuses =>
    simp only [Point.resume] at h
    split at h <;> cases h
    · exact (calm_throw ..).window rfl
    · exact CalmTurn.window ⟨⟨rfl, fun _ hq => hq⟩, rfl⟩ rfl
  | creatingPopup window =>
    cases h
    refine (calm_throw ..).windowAfter rfl ?_
    exact ⟨rfl, fun _ hq => hq⟩
  | focusing window focuses =>
    cases focuses with
    | true =>
      cases h
      exact CalmTurn.window ⟨.refl c, rfl⟩ rfl
    | false =>
      cases h
      exact .tracksNone window
  | creating window =>
    cases window with
    | some windowId =>
      cases h
      exact .tracks windowId
    | none =>
      cases h
      exact .givesUp
  | unlocking what password blob inputs =>
    simp only [Point.resume] at h
    split at h <;> cases h
    · exact CalmTurn.window ⟨⟨rfl, fun _ hq => hq⟩, rfl⟩ rfl
    · exact (calm_answer ..).window rfl
  | opened what inputs =>
    cases h
    unfold Background.persistSession
    split <;> exact CalmTurn.window ⟨⟨rfl, fun _ hq => hq⟩, rfl⟩ rfl
  | persisted what inputs =>
    cases what with
    | setUp =>
      cases h
      exact (calm_answer ..).window rfl
    | unlock =>
      cases h
      exact (calm_startSync ..).window rfl
  | syncing what origins changed inputs =>
    cases origins with
    | nil =>
      simp only [Point.resume] at h
      split at h
      · cases h
        exact (calm_failSync ..).window rfl
      · split at h
        · split at h
          · cases h
            exact (calm_failSync ..).window rfl
          · next hsave =>
            cases h
            exact (save_calm hsave).window rfl
        · cases h
          exact (calm_endSync ..).window rfl
    | cons origin origins =>
      simp only [Point.resume] at h
      split at h
      · split at h
        · cases h
          exact (calm_failSync ..).window rfl
        · cases h
          exact CalmTurn.window ⟨calm_setVault .., rfl⟩ rfl
      · cases h
        exact CalmTurn.window ⟨.refl c, rfl⟩ rfl
  | restoring blob key inputs =>
    simp only [Point.resume] at h
    split at h <;> cases h
    · refine (calm_startSync ..).windowAfter rfl ?_
      exact ⟨rfl, fun _ hq => hq⟩
    · exact CalmTurn.window ⟨⟨rfl, fun _ hq => hq⟩, rfl⟩ rfl
  | clearing =>
    cases h
    exact (calm_answer ..).window rfl
  | checkingIdle expired =>
    cases h
    split <;> exact CalmTurn.window ⟨⟨rfl, fun _ hq => hq⟩, rfl⟩ rfl
  | decryptingImport data password inputs =>
    cases h
    exact (calm_finishImport ..).window rfl
  | rederiving after password inputs =>
    cases h
    exact (calm_sealVault ..).window rfl
  | sealing after sealed fresh stores =>
    simp only [Point.resume] at h
    split at h <;> cases h
    · exact CalmTurn.window ⟨⟨rfl, fun _ hq => hq⟩, rfl⟩ rfl
    · refine (calm_failSave ..).windowAfter rfl ?_
      exact ⟨rfl, fun _ hq => hq⟩
  | stored after key =>
    cases key <;> cases h <;> exact CalmTurn.window ⟨⟨rfl, fun _ hq => hq⟩, rfl⟩ rfl
  | adopting after key =>
    cases h
    exact CalmTurn.window ⟨⟨rfl, fun _ hq => hq⟩, rfl⟩ rfl
  | saved after =>
    cases h
    exact (calm_finishSave ..).window rfl
  | checkingHost origin inputs =>
    simp only [Point.resume] at h
    split at h <;> cases h
    · unfold trustSite
      split
      · exact (calm_throw ..).window rfl
      · exact ((calm_saveAndRespond ..).after (calm_setVault ..)).window rfl
    · exact (calm_throw ..).window rfl
  | answering r =>
    cases h
    exact (calm_answer ..).window rfl
  | signing sender grounds account body =>
    simp only [Point.resume] at h
    split at h <;> cases h
    · exact (calm_answer ..).window rfl
    · refine (calm_answer ..).windowAfter rfl ?_
      exact ⟨rfl, fun _ hq => hq⟩
  | signingApproved p account body =>
    cases h
    refine (calm_endHandler ..).windowAfter rfl ?_
    exact ⟨rfl, fun _ hq => hq⟩
  | revealing p account outcome =>
    cases h
    split
    · refine (calm_endHandler ..).windowAfter rfl ?_
      exact ⟨rfl, fun _ hq => hq⟩
    · exact (calm_endHandler ..).window rfl
  | attesting p account rotated ts =>
    cases h
    refine (calm_endHandler ..).windowAfter rfl ?_
    exact ⟨rfl, fun _ hq => hq⟩
  | done => cases h

/-! ## What is kept -/

/-- A window that is being created is the only one, and is the one that all requests wait for. -/
structure CreatingAlone (s : State Background ExtensionTask) (i : ℕ) (t : ExtensionTask) : Prop where
  window : s.shared.approvalWindowId = none
  owner : ∀ p ∈ s.shared.pendingRequests, p.owner = t.caller.number
  only : ∀ j u, s.task j = some u → u.point.isCreating = true → j = i

structure WindowInv (s : Browser) : Prop where
  windows : s.windows = s.worker.shared.approvalWindowId.toList
  creating : ∀ i t, s.worker.task i = some t → t.point.isCreating = true → CreatingAlone s.worker i t
  waiting : s.worker.shared.pendingRequests ≠ [] →
    s.worker.shared.approvalWindowId ≠ none ∨ Creating s.worker

theorem WindowInv.oneWindow {s : Browser} (h : WindowInv s) : OneWindow s where
  one := by
    rw [h.windows]
    cases s.worker.shared.approvalWindowId <;> simp
  tracked w hw := by
    rw [h.windows] at hw
    exact Option.mem_toList.mp hw
  served hp := by
    rw [h.windows]
    refine (h.waiting hp).imp_left fun hne hnil => hne ?_
    exact Option.toList_eq_nil_iff.mp hnil

/-- Nothing waits where nothing is tracked and nothing is created. -/
theorem WindowInv.idle {s : Browser} (h : WindowInv s) (hwindow : s.worker.shared.approvalWindowId = none)
    (hcreating : ¬ Creating s.worker) : s.windows = [] ∧ s.worker.shared.pendingRequests = [] := by
  refine ⟨by rw [h.windows, hwindow]; rfl, ?_⟩
  by_contra hne
  exact (h.waiting hne).elim (fun hw => hw hwindow) hcreating

theorem pendingRequests_reject (c : Background) (owner : ℕ) (error : Text) :
    (c.reject owner error).pendingRequests = c.pendingRequests.filter (·.owner != owner) := by
  unfold Background.reject
  split
  · next hnone =>
    refine (List.filter_eq_self.mpr fun p hp => ?_).symm
    have hne := List.find?_eq_none.mp hnone p hp
    simpa using hne
  · next p hp =>
    have howner := List.find?_some hp
    rw [beq_iff_eq] at howner
    rw [← howner]
    rfl

section tasks

variable {s : State Background ExtensionTask} {i j : ℕ} {t q u : ExtensionTask}

theorem task_set_of_ne (hne : j ≠ i) : State.task ⟨d, s.tasks.set i (some q)⟩ j = s.task j := by
  unfold State.task
  rw [List.getElem?_set_ne (Ne.symm hne)]

theorem task_set_self (ht : s.task i = some t) : State.task ⟨d, s.tasks.set i (some q)⟩ i = some q := by
  unfold State.task
  rw [List.getElem?_set_self (State.lt_of_task ht)]
  rfl

/-- The tasks that create windows are not changed by a turn of another. -/
theorem creating_set (ht : s.task i = some t) (htp : t.point.isCreating = false) (hq : q.point.isCreating = false)
    (hu : u.point.isCreating = true) :
    State.task ⟨d, s.tasks.set i (some q)⟩ j = some u ↔ s.task j = some u := by
  by_cases hji : j = i
  · subst hji
    rw [task_set_self ht, ht]
    refine iff_of_false (fun heq => ?_) fun heq => ?_ <;> obtain rfl := Option.some.inj heq
    · rw [hq] at hu
      cases hu
    · rw [htp] at hu
      cases hu
  · rw [task_set_of_ne hji]

theorem creating_push (hq : q.point.isCreating = false) (hu : u.point.isCreating = true) :
    State.task ⟨d, s.tasks ++ [some q]⟩ j = some u ↔ s.task j = some u := by
  constructor
  · intro h
    rcases State.task_push h with ⟨-, rfl⟩ | ⟨-, h⟩
    · rw [hq] at hu
      cases hu
    · exact h
  · intro h
    unfold State.task
    rw [List.getElem?_append_left (State.lt_of_task h)]
    exact h

end tasks

section invariant

variable {s s' : Browser} {w : State Background ExtensionTask}

/-- What creates windows stays as it is. -/
theorem WindowInv.calm (h : WindowInv s) (hcalm : Calm s.worker.shared s'.worker.shared)
    (hwindows : s'.windows = s.windows)
    (htasks : ∀ j u, u.point.isCreating = true → (s'.worker.task j = some u ↔ s.worker.task j = some u)) :
    WindowInv s' where
  windows := by rw [hwindows, hcalm.window, h.windows]
  creating i t ht hcreating := by
    obtain ⟨hwindow, howner, honly⟩ := h.creating i t ((htasks i t hcreating).mp ht) hcreating
    exact ⟨hcalm.window.trans hwindow, fun p hp => howner p (hcalm.pending p hp),
      fun j u hu hcreates => honly j u ((htasks j u hcreates).mp hu) hcreates⟩
  waiting hne := by
    obtain ⟨p, hp⟩ := List.exists_mem_of_ne_nil _ hne
    rcases h.waiting (List.ne_nil_of_mem (hcalm.pending p hp)) with hwindow | ⟨i, t, ht, hcreating⟩
    · rw [hcalm.window]
      exact .inl hwindow
    · exact .inr ⟨i, t, (htasks i t hcreating).mpr ht, hcreating⟩

/-- A request joins the ones that the open window is for. -/
theorem WindowInv.joins {pending : List Pending} {windowId : ℕ} (h : WindowInv s)
    (hwindow : s.worker.shared.approvalWindowId = some windowId)
    (hshared : s'.worker.shared = { s.worker.shared with pendingRequests := pending })
    (hwindows : s'.windows = s.windows)
    (htasks : ∀ j u, u.point.isCreating = true → (s'.worker.task j = some u ↔ s.worker.task j = some u)) :
    WindowInv s' where
  windows := by rw [hwindows, h.windows, hshared]
  creating i t ht hcreating := by
    have hnone := (h.creating i t ((htasks i t hcreating).mp ht) hcreating).window
    rw [hwindow] at hnone
    cases hnone
  waiting _ := by
    rw [hshared]
    refine .inl ?_
    change s.worker.shared.approvalWindowId ≠ none
    rw [hwindow]
    exact Option.some_ne_none _

variable {i : ℕ} {t q : ExtensionTask}

/-- A creation begins where there is neither a window nor another creation. -/
theorem WindowInv.begins (h : WindowInv s) (hwindow : s.worker.shared.approvalWindowId = none)
    (hcreating : ¬ Creating s.worker) (ht : s.worker.task i = some t) (hq : q.point.isCreating = true)
    (hworker : s'.worker = ⟨d, s.worker.tasks.set i (some q)⟩) (hwindows : s'.windows = s.windows)
    (hnone : d.approvalWindowId = none) (howner : ∀ p ∈ d.pendingRequests, p.owner = q.caller.number) :
    WindowInv s' where
  windows := by
    rw [hwindows, (h.idle hwindow hcreating).1, hworker]
    change [] = d.approvalWindowId.toList
    rw [hnone]
    rfl
  creating j u hu hcreates := by
    have honly : ∀ k v, s'.worker.task k = some v → v.point.isCreating = true → k = i := by
      intro k v hv hvp
      by_contra hne
      rw [hworker, task_set_of_ne hne] at hv
      exact hcreating ⟨k, v, hv, hvp⟩
    have hji := honly j u hu hcreates
    subst hji
    have huq : u = q := by
      rw [hworker, task_set_self ht] at hu
      exact (Option.some.inj hu).symm
    subst huq
    exact ⟨by rw [hworker]; exact hnone, by rw [hworker]; exact howner, honly⟩
  waiting _ := by
    rw [hworker]
    exact .inr ⟨i, q, task_set_self ht, hq⟩

/-- The creation of a window ends. -/
theorem WindowInv.ends (h : WindowInv s) (ht : s.worker.task i = some t) (htp : t.point.isCreating = true)
    (hq : q.point.isCreating = false) (hworker : s'.worker = ⟨d, s.worker.tasks.set i (some q)⟩)
    (hwindows : s'.windows = d.approvalWindowId.toList)
    (hwaiting : d.pendingRequests ≠ [] → d.approvalWindowId ≠ none) : WindowInv s' where
  windows := by rw [hwindows, hworker]
  creating j u hu hcreates := by
    rw [hworker] at hu
    by_cases hji : j = i
    · subst hji
      rw [task_set_self ht] at hu
      obtain rfl := Option.some.inj hu
      rw [hq] at hcreates
      cases hcreates
    · rw [task_set_of_ne hji] at hu
      exact absurd ((h.creating i t ht htp).only j u hu hcreates) hji
  waiting hne := by
    rw [hworker] at hne ⊢
    exact .inl (hwaiting hne)

/-! ## Steps -/

theorem ne_creating {p : Point} (hp : p.isCreating = false) (windowId : ℕ) : p ≠ .creating (some windowId) := by
  rintro rfl
  cases hp

theorem resume_windows (ht : s.worker.task i = some t) (htp : ∀ windowId, t.point ≠ .creating (some windowId))
    (h : s.resume i w = some s') : s'.worker = w ∧ s'.windows = s.windows := by
  unfold Browser.resume at h
  rw [ht] at h
  simp only [Option.map_some] at h
  split at h
  · split at h <;> cases h
    exact ⟨rfl, rfl⟩
  · next windowId hpoint => exact absurd (Option.some.inj hpoint) (htp windowId)
  · cases h
    exact ⟨rfl, rfl⟩

theorem resume_created {windowId : ℕ} (ht : s.worker.task i = some t)
    (htp : t.point = .creating (some windowId)) (h : s.resume i w = some s') :
    s'.worker = w ∧ s'.windows = windowId :: s.windows := by
  unfold Browser.resume at h
  rw [ht, Option.map_some, htp] at h
  simp only at h
  split at h <;> cases h
  exact ⟨rfl, rfl⟩

theorem WindowInv.resume (hinv : WindowInv s) (halone : CreatesAlone prim s (.resume i))
    (h : s.step prim (.resume i) = some s') : WindowInv s' := by
  obtain ⟨worker, hstep, hresume⟩ := Option.bind_eq_some_iff.mp h
  obtain ⟨t, d, q, ht, hout, rfl⟩ := Program.step_resume hstep
  obtain ⟨out, hturn, hpair⟩ := Option.map_eq_some_iff.mp hout
  obtain ⟨rfl, rfl⟩ := Prod.mk.inj hpair
  have hbegins : out.2.isCreating = true → s.worker.shared.approvalWindowId = none ∧ ¬ Creating s.worker :=
    fun hcreates => halone t ht (by rw [beginsCreation, hturn]; exact hcreates)
  obtain ⟨caller, isMessage, point⟩ := t
  have hwindow : WindowTurn s.worker.shared caller.number point out := windowTurn_resume hturn
  cases hwindow with
  | calm hpoint hcalm =>
    obtain ⟨hworker, hwindows⟩ := resume_windows ht (ne_creating hpoint) hresume
    refine hinv.calm (by rw [hworker]; exact hcalm.calm) hwindows fun j u hu => ?_
    rw [hworker]
    exact creating_set ht hpoint hcalm.notCreating hu
  | asks origin approval window hpoint hnone =>
    obtain ⟨hworker, hwindows⟩ := resume_windows ht (ne_creating hpoint) hresume
    obtain ⟨-, hcreating⟩ := hbegins rfl
    refine hinv.begins hnone hcreating ht rfl hworker hwindows hnone fun p hp => ?_
    change p ∈ s.worker.shared.pendingRequests ++ _ at hp
    rw [(hinv.idle hnone hcreating).2, List.nil_append] at hp
    rw [List.mem_singleton.mp hp]
  | joins origin approval window focuses hpoint hsome =>
    obtain ⟨hworker, hwindows⟩ := resume_windows ht (ne_creating hpoint) hresume
    refine hinv.joins hsome (by rw [hworker]) hwindows fun j u hu => ?_
    rw [hworker]
    exact creating_set ht hpoint rfl hu
  | tracksNone window =>
    obtain ⟨hworker, hwindows⟩ := resume_windows ht (ne_creating rfl) hresume
    obtain ⟨hnone, hcreating⟩ := hbegins rfl
    refine hinv.begins hnone hcreating ht rfl hworker hwindows rfl fun p hp => ?_
    change p ∈ s.worker.shared.pendingRequests at hp
    rw [(hinv.idle hnone hcreating).2] at hp
    cases hp
  | tracks windowId =>
    obtain ⟨hworker, hwindows⟩ := resume_created ht rfl hresume
    have hnone := (hinv.creating i _ ht rfl).window
    refine hinv.ends ht rfl rfl hworker ?_ fun _ => Option.some_ne_none windowId
    rw [hwindows, hinv.windows, hnone]
    rfl
  | givesUp =>
    obtain ⟨hworker, hwindows⟩ := resume_windows ht (fun windowId heq => by cases heq) hresume
    have halone := hinv.creating i _ ht rfl
    refine hinv.ends ht rfl rfl hworker ?_ fun hne => ?_
    · rw [hwindows, hinv.windows, (calm_reject ..).window]
    · refine absurd ?_ hne
      rw [pendingRequests_reject, List.filter_eq_nil_iff]
      intro p hp
      simpa using halone.owner p hp

/-- A call that is not the closing of a window leaves the window alone. -/
theorem calm_begin {call : Call} (hcall : ∀ windowId, call ≠ .windowRemoved windowId) :
    CalmTurn c (Call.begin c call) := by
  unfold Call.begin
  cases call with
  | message sender request inputs => exact ⟨.refl c, rfl⟩
  | start expired inputs =>
    simp only
    split
    · unfold initializeStorage
      simp only
      split <;> exact ⟨⟨rfl, fun _ hp => hp⟩, rfl⟩
    · exact ⟨.refl c, rfl⟩
  | idleAlarm expired =>
    simp only
    split <;> exact ⟨.refl c, rfl⟩
  | windowRemoved windowId => exact absurd rfl (hcall windowId)
  | timeout owner => exact ⟨calm_reject .., rfl⟩

/-- The unlock window is closed, if it is this one. -/
def Background.closePopup (c : Background) (windowId : ℕ) : Background :=
  if c.popupWindowId = some windowId then { c with popupWindowId := none } else c

theorem calm_closePopup (c : Background) (windowId : ℕ) :
    Calm c (c.closePopup windowId) ∧ (c.closePopup windowId).pendingRequests = c.pendingRequests := by
  unfold Background.closePopup
  split <;> exact ⟨⟨rfl, fun _ hp => hp⟩, rfl⟩

theorem handleWindowClosed_eq (c : Background) (windowId : ℕ) : c.handleWindowClosed windowId =
    if (c.closePopup windowId).approvalWindowId = some windowId then
      { c.closePopup windowId with approvalWindowId := none }.rejectAllApprovals (lit "Approval window closed")
    else c.closePopup windowId := rfl

/-- All that waits is rejected where the window that is tracked is closed. -/
theorem handleWindowClosed_tracked {windowId : ℕ} (h : c.approvalWindowId = some windowId) :
    (c.handleWindowClosed windowId).approvalWindowId = none ∧
    (c.handleWindowClosed windowId).pendingRequests = [] ∧
    ∀ p ∈ c.pendingRequests, (p.owner, .failed (lit "Approval window closed")) ∈
      (c.handleWindowClosed windowId).responses := by
  obtain ⟨hcalm, hpending⟩ := calm_closePopup c windowId
  rw [handleWindowClosed_eq, if_pos (hcalm.window.trans h)]
  refine ⟨rfl, rfl, fun p hp => List.mem_append_right _ (List.mem_map.mpr ⟨p, ?_, rfl⟩)⟩
  change p ∈ (c.closePopup windowId).pendingRequests
  rw [hpending]
  exact hp

theorem handleWindowClosed_other {windowId : ℕ} (h : c.approvalWindowId ≠ some windowId) :
    Calm c (c.handleWindowClosed windowId) := by
  obtain ⟨hcalm, -⟩ := calm_closePopup c windowId
  rw [handleWindowClosed_eq, if_neg fun heq => h (hcalm.window.symm.trans heq)]
  exact hcalm

theorem WindowInv.call {call : Call} (hinv : WindowInv s) (h : s.step prim (.call call) = some s') :
    WindowInv s' := by
  obtain ⟨worker, hstep, hcall⟩ := Option.bind_eq_some_iff.mp h
  obtain rfl := Option.some.inj hstep
  cases call with
  | windowRemoved windowId =>
    obtain rfl := Option.some.inj hcall
    by_cases htracked : s.worker.shared.approvalWindowId = some windowId
    · obtain ⟨hnone, hpending, -⟩ := handleWindowClosed_tracked htracked
      refine ⟨?_, fun i t ht hcreating => ?_, fun hne => absurd hpending hne⟩
      · change s.windows.filter (· != windowId) = _
        rw [hinv.windows, htracked]
        change _ = (s.worker.shared.handleWindowClosed windowId).approvalWindowId.toList
        rw [hnone]
        simp
      · have hwindow := (hinv.creating i t ((creating_push rfl hcreating).mp ht) hcreating).window
        rw [htracked] at hwindow
        cases hwindow
    · refine hinv.calm (handleWindowClosed_other htracked) ?_ fun j u hu => creating_push rfl hu
      change s.windows.filter (· != windowId) = s.windows
      rw [hinv.windows, List.filter_eq_self]
      intro w hw
      rw [Option.mem_toList] at hw
      exact bne_iff_ne.mpr fun heq => htracked (heq ▸ hw)
  | message | start | idleAlarm | timeout =>
    obtain rfl := Option.some.inj hcall
    refine hinv.calm (calm_begin ?_).calm rfl fun j u hu => creating_push (calm_begin ?_).notCreating hu
    all_goals
      intro windowId heq
      cases heq

theorem WindowInv.step {a : Action Call} (hinv : WindowInv s) (halone : CreatesAlone prim s a)
    (h : s.step prim a = some s') : WindowInv s' := by
  cases a with
  | call call => exact hinv.call h
  | resume i => exact hinv.resume halone h
  | restart =>
    obtain ⟨worker, -, hrestart⟩ := Option.bind_eq_some_iff.mp h
    cases hrestart

theorem WindowInv.rejectsOnClose (hinv : WindowInv s) : RejectsOnClose prim s := by
  intro windowId hw s' h
  obtain ⟨worker, hstep, hcall⟩ := Option.bind_eq_some_iff.mp h
  obtain rfl := Option.some.inj hstep
  obtain rfl := Option.some.inj hcall
  exact (handleWindowClosed_tracked (hinv.oneWindow.tracked windowId hw)).2

theorem windowInv_start (hwindow : c.approvalWindowId = none) (hpending : c.pendingRequests = []) :
    WindowInv (.start c) where
  windows := by
    change [] = c.approvalWindowId.toList
    rw [hwindow]
    rfl
  creating i t ht _ := by
    have hnone : (State.start c : State Background ExtensionTask).task i = none := State.task_start c i
    cases hnone.symm.trans ht
  waiting hne := absurd hpending hne

end invariant

/-- `CreatesAlone` for the runs of the samples. -/
def createsAlone (s : Browser) : Action Call → Bool
  | .resume i => (s.worker.task i).all fun t =>
    !beginsCreation samplePrimitives s.worker.shared t ||
      s.worker.shared.approvalWindowId.isNone &&
        s.worker.tasks.all fun u => !u.any fun u => u.point.isCreating
  | _ => true

theorem not_creating_of_all {s : State Background ExtensionTask}
    (h : s.tasks.all (fun u => !u.any fun u => u.point.isCreating) = true) : ¬ Creating s := by
  rintro ⟨j, u, hu, hcreates⟩
  have hmem : some u ∈ s.tasks := by
    unfold State.task at hu
    obtain ⟨o, ho, rfl⟩ := Option.bind_eq_some_iff.mp hu
    exact List.mem_of_getElem? ho
  have hnot := List.all_eq_true.mp h _ hmem
  rw [Option.any_some, hcreates] at hnot
  cases hnot

theorem createsAlone_of_test {s : Browser} {a : Action Call} (h : createsAlone s a = true) :
    CreatesAlone samplePrimitives s a := by
  cases a with
  | resume i =>
    intro t ht hbegins
    rw [createsAlone, ht, Option.all_some, hbegins, Bool.not_true, Bool.false_or, Bool.and_eq_true] at h
    exact ⟨Option.isNone_iff_eq_none.mp h.1, not_creating_of_all h.2⟩
  | call | restart => trivial

/-- The connected site asks for a signature; the browser opens `window` for it, where one is created. -/
def signatureRequest (window : Option ℕ) (focuses : Bool) : Action Call :=
  .call (.message ⟨false, some sampleOrigin⟩ (.sign (some (.str (lit "text"))))
    { sampleInputs with
      window := window
      focuses := focuses })

/-- The second request joins the first. -/
def joinedRequests : List (Action Call) :=
  [signatureRequest (some 1) true, .resume 0, .resume 0, signatureRequest none true, .resume 1, .resume 1]

/-- Both requests find no window, and both create one. -/
def overlappingRequests : List (Action Call) :=
  [signatureRequest (some 1) true, .resume 0, signatureRequest (some 2) true, .resume 1, .resume 0, .resume 1]

/-- The second request tries to focus a window that is closed meanwhile, and forgets the one that the third has
opened. -/
def forgottenWindow : List (Action Call) :=
  [signatureRequest (some 1) true, .resume 0, .resume 0, signatureRequest none false, .resume 1,
    .call (.windowRemoved 1), signatureRequest (some 2) true, .resume 3, .resume 3, .resume 1, .resume 1,
    .call (.windowRemoved 2)]

end Kryptolog.Extension
