import Kryptolog.Extension.Background
import Kryptolog.Library.Runs

/-! # The content scripts of trusted sites

`connection.js` of the extension's background, with `chrome.scripting` and `chrome.permissions` beside it. The
scripts of a site are registered when it is trusted, and synchronised with the vault whenever it is opened.
Their ids are made from the origin by a text encoding, and looked up by prefix.

A call makes its writes one after the other, and the worker can be stopped between two of them. Then its
memory is lost, and storage, host permissions and registered scripts stay.
-/

namespace Kryptolog.Extension.ContentScripts
set_option autoImplicit false

open Script Runs

/-! ## Origins -/

def isHttps (origin : Text) : Bool := (lit "https://").isPrefixOf origin

structure Url where
  protocol : Text
  hostname : Text

/-- `new URL(text)`, where it does not throw. -/
structure Browser where
  url : Text → Option Url
  protocol_https : ∀ origin u, isHttps origin = true → url origin = some u → u.protocol = lit "https:"

/-- `isDevOrigin`. -/
def Browser.isDevOrigin (b : Browser) (origin : Text) : Bool :=
  (b.url origin).any fun u =>
    u.protocol == lit "http:" && (u.hostname == lit "localhost" || u.hostname == lit "127.0.0.1")

/-- `isAllowedTrustedOrigin`. -/
def Browser.isAllowedTrustedOrigin (b : Browser) (origin : Text) : Bool :=
  !origin.isEmpty && (b.isDevOrigin origin || isHttps origin)

/-- What stands in an id for a code point: every unit of it that is no letter or digit is replaced. -/
def idPoint : Point → Text
  | .char c => if c.isAlphanum then [.char c] else (Point.char c).units.map fun _ => .char '_'
  | .surrogate _ => [.char '_']

/-- `originToScriptId`. -/
def originToScriptId (origin : Text) : Text := lit "tk_" ++ origin.flatMap idPoint

def mainId (origin : Text) : Text := originToScriptId origin ++ lit "_main"

def isolatedId (origin : Text) : Text := originToScriptId origin ++ lit "_isolated"

/-! ## Scripts -/

inductive World
  | main
  | isolated
  deriving DecidableEq

structure ContentScript where
  id : Text
  /-- The script is injected into the pages of the origin, and no others. -/
  origin : Text
  world : World
  deriving DecidableEq

def mainScript (origin : Text) : ContentScript := ⟨mainId origin, origin, .main⟩

def isolatedScript (origin : Text) : ContentScript := ⟨isolatedId origin, origin, .isolated⟩

@[simp] theorem mainScript_id (origin : Text) : (mainScript origin).id = mainId origin := rfl

@[simp] theorem isolatedScript_id (origin : Text) : (isolatedScript origin).id = isolatedId origin := rfl

@[simp] theorem mainScript_origin (origin : Text) : (mainScript origin).origin = origin := rfl

@[simp] theorem isolatedScript_origin (origin : Text) : (isolatedScript origin).origin = origin := rfl

/-- `chrome.scripting.registerContentScripts`: it rejects ids that are taken. -/
def registerContentScripts (scripts registered : List ContentScript) : Option (List ContentScript) :=
  if ((registered ++ scripts).map (·.id)).Nodup then some (registered ++ scripts) else none

/-- `chrome.scripting.getRegisteredContentScripts`, of ids. -/
def getRegisteredContentScripts (ids : List Text) (registered : List ContentScript) : List ContentScript :=
  registered.filter fun c => ids.contains c.id

/-! ## The background -/

structure State where
  /-- `state.vault`. -/
  vault : Option ExtensionVault
  /-- The vault in storage. -/
  stored : Option ExtensionVault
  /-- The origins with a host permission. -/
  granted : List Text
  registered : List ContentScript

/-- The extension as it is installed. -/
def installed : State := ⟨none, none, [], []⟩

/-- One change of memory and storage, or of what the browser holds. -/
abbrev Write := State → State

def apply (writes : List Write) (s : State) : State := writes.foldl (fun s write => write s) s

/-- The vault is changed and saved. -/
def save (v : ExtensionVault) : Write := fun s => { s with vault := some v, stored := some v }

/-- `chrome.scripting.unregisterContentScripts`. -/
def unregister (ids : List Text) : Write := fun s =>
  { s with registered := s.registered.filter fun c => !ids.contains c.id }

/-- `registerOriginScripts`. -/
def Browser.registerOriginScripts (b : Browser) (origin : Text) : Write := fun s =>
  if b.isDevOrigin origin then s
  else if !s.granted.contains origin then s
  else if (getRegisteredContentScripts [mainId origin, isolatedId origin] s.registered).length ≥ 2 then s
  else
    match registerContentScripts [mainScript origin, isolatedScript origin] s.registered with
    | some registered => { s with registered := registered }
    | none => s

/-- `unregisterOriginScripts`. -/
def unregisterOriginScripts (origin : Text) : Write := unregister [mainId origin, isolatedId origin]

/-- `chrome.permissions.remove`. -/
def removePermission (origin : Text) : Write := fun s => { s with granted := s.granted.filter (· != origin) }

/-- `syncDynamicScripts`: a trusted origin without its host permission is dropped. -/
def Browser.reconcile (b : Browser) (granted : List Text) (v : ExtensionVault) : ExtensionVault :=
  v.permissions.foldl
    (fun v origin => if b.isDevOrigin origin || granted.contains origin then v else v.withdraw origin) v

/-- `syncDynamicScripts`: the ids that no trusted origin has a share in. -/
def stale (origins : List Text) (s : State) : List Text :=
  (s.registered.filter fun c => (lit "tk_").isPrefixOf c.id &&
    !origins.any fun origin => (originToScriptId origin).isPrefixOf c.id).map (·.id)

/-- `openVault`, on unlocking or when the worker starts again, and then `syncDynamicScripts`. -/
def Browser.syncDynamicScripts (b : Browser) (s : State) : List Write :=
  match s.stored with
  | none => []
  | some v =>
    let reconciled := b.reconcile s.granted v
    let registering := reconciled.permissions.map b.registerOriginScripts
    let s' := apply registering (save reconciled s)
    save reconciled :: (registering ++ (stale reconciled.permissions s').map fun id => unregister [id])

inductive Call
  | setupPassword
  /-- `handleConnectAsync`, approved. -/
  | connect (origin : Text)
  | addTrustedSite (origin : Text)
  | removeTrustedSite (origin : Text)
  /-- `UNLOCK`, or a start of the worker with a cached key. -/
  | unlock

/-- What a call writes. -/
def Browser.writes (b : Browser) (s : State) : Call → List Write
  | .setupPassword => if s.stored.isSome then [] else [save .empty]
  | .connect origin =>
    match s.vault with
    | none => []
    | some v => if v.permissions.contains origin then [] else [save (v.permit origin)]
  | .addTrustedSite origin =>
    match s.vault with
    | none => []
    | some v =>
      if !b.isAllowedTrustedOrigin origin || !b.isDevOrigin origin && !s.granted.contains origin then []
      else [save (v.permit origin), b.registerOriginScripts origin]
  | .removeTrustedSite origin =>
    match s.vault with
    | none => []
    | some v =>
      if origin.isEmpty || b.isDevOrigin origin then []
      else [save (v.withdraw origin), unregisterOriginScripts origin, removePermission origin]
  | .unlock => b.syncDynamicScripts s

inductive Event
  | call (call : Call)
  /-- The worker is stopped after the first writes of a call. -/
  | interrupt (call : Call) (writes : ℕ)
  /-- The vault is locked, or the worker is stopped. -/
  | lock
  /-- The user grants a host permission. The manifest asks for none but those of `https`. -/
  | grant (origin : Text)
  | revoke (origin : Text)

def lock (s : State) : State := { s with vault := none }

def Browser.step (b : Browser) (s : State) : Event → State
  | .call call => apply (b.writes s call) s
  | .interrupt call n => lock (apply ((b.writes s call).take n) s)
  | .lock => lock s
  | .grant origin => if isHttps origin then { s with granted := s.granted.insert origin } else s
  | .revoke origin => removePermission origin s

/-! ## What is kept -/

/-- The origins that are trusted in the stored vault. -/
def State.permitted (s : State) : List Text := (s.stored.map (·.permissions)).getD []

/-- The origins that are trusted, or have a script. -/
def State.origins (s : State) : List Text := s.permitted ++ s.registered.map (·.origin)

/-- The id of neither origin is how an id of a script of the other begins. -/
structure Separate (o o' : Text) : Prop where
  main : ¬ originToScriptId o <+: mainId o'
  isolated : ¬ originToScriptId o <+: isolatedId o'
  main' : ¬ originToScriptId o' <+: mainId o
  isolated' : ¬ originToScriptId o' <+: isolatedId o

/-- Scripts with ids of their own, in the form that registering gives them, of separate origins. -/
structure Sound (b : Browser) (s : State) : Prop where
  https : ∀ o ∈ s.granted, isHttps o = true
  own : ∀ c ∈ s.registered, b.isDevOrigin c.origin = false ∧
    (c = mainScript c.origin ∨ c = isolatedScript c.origin)
  nodup : (s.registered.map (·.id)).Nodup
  separate : ∀ o ∈ s.origins, ∀ o' ∈ s.origins, o ≠ o' → Separate o o'

/-- Both scripts of the origin are registered. -/
def State.Whole (s : State) (o : Text) : Prop := mainScript o ∈ s.registered ∧ isolatedScript o ∈ s.registered

/-- Both scripts of the origin are registered, or none. -/
def State.Settled (s : State) (o : Text) : Prop := s.Whole o ∨ ∀ c ∈ s.registered, c.origin ≠ o

/-- What is kept between the writes of a call: half of the scripts of an origin are registered only where the
origin is trusted no more. -/
structure Kept (b : Browser) (s : State) : Prop where
  sound : Sound b s
  settled : ∀ o ∈ s.permitted, s.Settled o
  fresh : s.stored = none → s.registered = []

/-- What is kept between calls: halves are left only by a worker that was stopped, until the vault is opened. -/
structure Inv (b : Browser) (s : State) : Prop extends Kept b s where
  memory : ∀ v, s.vault = some v → s.stored = some v
  unlocked : s.vault.isSome = true → ∀ o, s.Settled o

/-- The scripts are exactly the two for each trusted origin with a host permission. -/
structure Exact (s : State) : Prop where
  mem : ∀ c, c ∈ s.registered ↔
    ∃ o ∈ s.permitted, o ∈ s.granted ∧ (c = mainScript o ∨ c = isolatedScript o)
  nodup : s.registered.Nodup

section invariant

variable {b : Browser} {s t : State} {o o' : Text} {c : ContentScript} {v : ExtensionVault}

/-! ### Ids -/

theorem Separate.symm (h : Separate o o') : Separate o' o := ⟨h.main', h.isolated', h.main, h.isolated⟩

theorem isHttps_not_dev (h : isHttps o = true) : b.isDevOrigin o = false := by
  have hkinds : lit "https:" ≠ lit "http:" := by decide
  rw [Browser.isDevOrigin]
  cases hu : b.url o with
  | none => rfl
  | some u => simp [b.protocol_https o u h hu, hkinds]

/-- A script in its form has an id that begins with that of its origin. -/
theorem id_of_own (h : c = mainScript c.origin ∨ c = isolatedScript c.origin) :
    c.id = mainId c.origin ∨ c.id = isolatedId c.origin :=
  h.imp (congrArg ContentScript.id) (congrArg ContentScript.id)

theorem prefix_mainId (o : Text) : originToScriptId o <+: mainId o := List.prefix_append _ _

theorem prefix_isolatedId (o : Text) : originToScriptId o <+: isolatedId o := List.prefix_append _ _

theorem prefix_id (h : c = mainScript c.origin ∨ c = isolatedScript c.origin) :
    originToScriptId c.origin <+: c.id := by
  rcases id_of_own h with hid | hid
  · exact hid ▸ prefix_mainId _
  · exact hid ▸ prefix_isolatedId _

/-- The id of an origin begins the ids of no scripts but its own. -/
theorem Sound.origin_eq (h : Sound b s) (hc : c ∈ s.registered) (ho : o ∈ s.origins)
    (hstarts : originToScriptId o <+: c.id) : c.origin = o := by
  by_contra hne
  have hmem : c.origin ∈ s.origins := List.mem_append_right _ (List.mem_map_of_mem hc)
  have hsep := h.separate o ho c.origin hmem (Ne.symm hne)
  rcases id_of_own (h.own c hc).2 with hid | hid
  · exact hsep.main (hid ▸ hstarts)
  · exact hsep.isolated (hid ▸ hstarts)

theorem mainId_ne_isolatedId (o : Text) : mainId o ≠ isolatedId o := by
  intro h
  have hsuffix := List.append_cancel_left h
  revert hsuffix
  decide

/-! ### Registering -/

/-- What registering the scripts of origins does. -/
structure Registers (b : Browser) (origins : List Text) (s t : State) : Prop where
  vault : t.vault = s.vault
  stored : t.stored = s.stored
  granted : t.granted = s.granted
  mem : ∀ c, c ∈ t.registered ↔ c ∈ s.registered ∨
    ∃ o ∈ origins, b.isDevOrigin o = false ∧ o ∈ s.granted ∧ (c = mainScript o ∨ c = isolatedScript o)
  nodup : (t.registered.map (·.id)).Nodup

theorem Registers.permitted {origins : List Text} (h : Registers b origins s t) : t.permitted = s.permitted := by
  rw [State.permitted, State.permitted, h.stored]

/-- The scripts of a separate origin without scripts are registered: their ids are free. -/
theorem registers_absent (h : Sound b s) (ho : o ∈ s.origins) (habsent : ∀ c ∈ s.registered, c.origin ≠ o) :
    getRegisteredContentScripts [mainId o, isolatedId o] s.registered = [] ∧
      registerContentScripts [mainScript o, isolatedScript o] s.registered =
        some (s.registered ++ [mainScript o, isolatedScript o]) := by
  have hfree : ∀ c ∈ s.registered, ¬ originToScriptId o <+: c.id := fun c hc hstarts =>
    habsent c hc (h.origin_eq hc ho hstarts)
  have hmain : mainId o ∉ s.registered.map (·.id) := by
    intro hmem
    obtain ⟨c, hc, hid⟩ := List.mem_map.mp hmem
    exact hfree c hc (hid ▸ prefix_mainId o)
  have hisolated : isolatedId o ∉ s.registered.map (·.id) := by
    intro hmem
    obtain ⟨c, hc, hid⟩ := List.mem_map.mp hmem
    exact hfree c hc (hid ▸ prefix_isolatedId o)
  constructor
  · refine List.filter_eq_nil_iff.mpr fun c hc hcontains => ?_
    have hid : c.id = mainId o ∨ c.id = isolatedId o := by simpa using hcontains
    rcases hid with hid | hid
    · exact hmain (hid ▸ List.mem_map_of_mem hc)
    · exact hisolated (hid ▸ List.mem_map_of_mem hc)
  · refine if_pos ?_
    rw [List.map_append]
    have hnew : ([mainScript o, isolatedScript o].map (·.id)).Nodup :=
      List.nodup_cons.mpr ⟨fun hmem => mainId_ne_isolatedId o (List.mem_singleton.mp hmem), List.nodup_singleton _⟩
    refine List.nodup_append.mpr ⟨h.nodup, hnew, fun id hid id' hid' heq => ?_⟩
    obtain rfl := heq
    have hid' : id = mainId o ∨ id = isolatedId o := by simpa using hid'
    rcases hid' with rfl | rfl
    · exact hmain hid
    · exact hisolated hid

/-- Two members of a list that differ. -/
theorem two_le_length {α : Type} {l : List α} {x y : α} (hx : x ∈ l) (hy : y ∈ l) (hne : x ≠ y) : 2 ≤ l.length := by
  cases l with
  | nil => cases hx
  | cons z l =>
    cases l with
    | nil => exact absurd ((List.mem_singleton.mp hx).trans (List.mem_singleton.mp hy).symm) hne
    | cons w l => simp

theorem registers_origin (h : Sound b s) (ho : o ∈ s.permitted) (hsettled : s.Settled o) :
    Registers b [o] s (b.registerOriginScripts o s) := by
  have hsame : (∀ c, c = mainScript o ∨ c = isolatedScript o → b.isDevOrigin o = false → o ∈ s.granted →
      c ∈ s.registered) → Registers b [o] s s := fun hmem =>
    ⟨rfl, rfl, rfl, fun c => ⟨.inl, fun hc => hc.elim id fun ⟨o', ho', hdev, hgranted, hform⟩ => by
      obtain rfl := List.mem_singleton.mp ho'
      exact hmem c hform hdev hgranted⟩, h.nodup⟩
  rw [Browser.registerOriginScripts]
  cases hdev : b.isDevOrigin o with
  | true => exact hsame fun c _ hno => absurd (hno.symm.trans hdev) Bool.false_ne_true
  | false =>
    by_cases hgranted : o ∈ s.granted
    · rw [if_neg Bool.false_ne_true, List.contains_iff_mem.mpr hgranted]
      rcases hsettled with hwhole | habsent
      · have hlength : (getRegisteredContentScripts [mainId o, isolatedId o] s.registered).length ≥ 2 :=
          two_le_length (List.mem_filter.mpr ⟨hwhole.1, by simp⟩)
            (List.mem_filter.mpr ⟨hwhole.2, by simp⟩)
            fun heq => mainId_ne_isolatedId o (congrArg ContentScript.id heq)
        rw [if_neg (by simp), if_pos hlength]
        refine hsame fun c hform _ _ => ?_
        rcases hform with rfl | rfl
        · exact hwhole.1
        · exact hwhole.2
      · obtain ⟨hnone, hregister⟩ := registers_absent h (List.mem_append_left _ ho) habsent
        rw [if_neg (by simp), hnone, if_neg (by simp), hregister]
        refine ⟨rfl, rfl, rfl, fun c => ?_, ?_⟩
        · simp [hdev, hgranted]
        · unfold registerContentScripts at hregister
          split at hregister
          · next hnodup => exact hnodup
          · cases hregister
    · rw [if_neg Bool.false_ne_true, if_pos (by simpa using hgranted)]
      exact hsame fun c _ _ hin => absurd hin hgranted

/-- Registering the scripts of trusted origins keeps what was sound, and settles what was settled. -/
theorem Registers.sound {origins : List Text} (hr : Registers b origins s t) (h : Sound b s)
    (horigins : ∀ o ∈ origins, o ∈ s.permitted) : Sound b t where
  https := hr.granted ▸ h.https
  own := fun c hc => by
    rcases (hr.mem c).mp hc with hold | ⟨o, -, hdev, -, rfl | rfl⟩
    · exact h.own c hold
    · exact ⟨hdev, .inl rfl⟩
    · exact ⟨hdev, .inr rfl⟩
  nodup := hr.nodup
  separate := by
    have hsub : ∀ o ∈ t.origins, o ∈ s.origins := by
      intro o ho
      rcases List.mem_append.mp ho with ho | ho
      · exact List.mem_append_left _ (hr.permitted ▸ ho)
      · obtain ⟨c, hc, rfl⟩ := List.mem_map.mp ho
        rcases (hr.mem c).mp hc with hold | ⟨o', ho', -, -, rfl | rfl⟩
        · exact List.mem_append_right _ (List.mem_map_of_mem hold)
        · exact List.mem_append_left _ (horigins o' ho')
        · exact List.mem_append_left _ (horigins o' ho')
    exact fun o ho o' ho' => h.separate o (hsub o ho) o' (hsub o' ho')

theorem Registers.settled {origins : List Text} (hr : Registers b origins s t) (h : s.Settled o) : t.Settled o := by
  by_cases hnew : o ∈ origins ∧ b.isDevOrigin o = false ∧ o ∈ s.granted
  · exact .inl ⟨(hr.mem _).mpr (.inr ⟨o, hnew.1, hnew.2.1, hnew.2.2, .inl rfl⟩),
      (hr.mem _).mpr (.inr ⟨o, hnew.1, hnew.2.1, hnew.2.2, .inr rfl⟩)⟩
  · rcases h with hwhole | habsent
    · exact .inl ⟨(hr.mem _).mpr (.inl hwhole.1), (hr.mem _).mpr (.inl hwhole.2)⟩
    · refine .inr fun c hc heq => ?_
      rcases (hr.mem c).mp hc with hold | ⟨o', ho', hdev, hgranted, rfl | rfl⟩
      · exact habsent c hold heq
      · exact hnew ⟨heq ▸ ho', heq ▸ hdev, heq ▸ hgranted⟩
      · exact hnew ⟨heq ▸ ho', heq ▸ hdev, heq ▸ hgranted⟩

theorem apply_cons (write : Write) (writes : List Write) (s : State) :
    apply (write :: writes) s = apply writes (write s) := rfl

theorem apply_append (writes writes' : List Write) (s : State) :
    apply (writes ++ writes') s = apply writes' (apply writes s) := List.foldl_append

/-- The loop of `syncDynamicScripts` over trusted origins. -/
theorem registers_origins {origins : List Text} (h : Sound b s) (horigins : ∀ o ∈ origins, o ∈ s.permitted)
    (hsettled : ∀ o ∈ s.permitted, s.Settled o) :
    Registers b origins s (apply (origins.map b.registerOriginScripts) s) := by
  induction origins generalizing s with
  | nil => exact ⟨rfl, rfl, rfl, fun c => by simp [apply], h.nodup⟩
  | cons o origins ih =>
    obtain ⟨ho, hrest⟩ := List.forall_mem_cons.mp horigins
    have hfirst := registers_origin h ho (hsettled o ho)
    have hpermitted := hfirst.permitted
    have hloop := ih (hfirst.sound h fun o' ho' => (List.mem_singleton.mp ho') ▸ ho)
      (fun o' ho' => hpermitted ▸ hrest o' ho') (fun o' ho' => hfirst.settled (hsettled o' (hpermitted ▸ ho')))
    rw [List.map_cons, apply_cons]
    refine ⟨hloop.vault.trans hfirst.vault, hloop.stored.trans hfirst.stored, hloop.granted.trans hfirst.granted,
      fun c => ?_, hloop.nodup⟩
    rw [hloop.mem, hfirst.mem, hfirst.granted, List.exists_mem_cons_iff, or_assoc]
    simp

/-! ### Unregistering -/

theorem apply_unregister (ids : List Text) (s : State) :
    apply (ids.map fun id => unregister [id]) s = unregister ids s := by
  induction ids generalizing s with
  | nil => simp [apply, unregister]
  | cons id ids ih =>
    rw [List.map_cons, apply_cons, ih, unregister, unregister, unregister, List.filter_filter]
    simp [Bool.and_comm]

theorem sound_unregister (h : Sound b s) (ids : List Text) : Sound b (unregister ids s) where
  https := h.https
  own := fun c hc => h.own c (List.mem_filter.mp hc).1
  nodup := h.nodup.sublist (List.filter_sublist.map _)
  separate := by
    have hsub : ∀ o ∈ (unregister ids s).origins, o ∈ s.origins := fun o ho =>
      (List.mem_append.mp ho).elim (List.mem_append_left _) fun ho => by
        obtain ⟨c, hc, rfl⟩ := List.mem_map.mp ho
        exact List.mem_append_right _ (List.mem_map_of_mem (List.mem_filter.mp hc).1)
    exact fun o ho o' ho' => h.separate o (hsub o ho) o' (hsub o' ho')

/-- Nothing changes for an origin of which no id is named. -/
theorem settled_unregister {ids : List Text} (hfree : ∀ id ∈ ids, ¬ originToScriptId o <+: id) (h : s.Settled o) :
    (unregister ids s).Settled o := by
  refine h.imp (fun hwhole => ⟨List.mem_filter.mpr ⟨hwhole.1, ?_⟩, List.mem_filter.mpr ⟨hwhole.2, ?_⟩⟩)
    fun habsent c hc => habsent c (List.mem_filter.mp hc).1
  · simpa using fun hmem : mainId o ∈ ids => hfree _ hmem (prefix_mainId o)
  · simpa using fun hmem : isolatedId o ∈ ids => hfree _ hmem (prefix_isolatedId o)

/-- Unregistering the scripts of an origin leaves none of them, and touches no other. -/
theorem settled_unregisterOriginScripts (h : Sound b s)
    (hsep : ∀ o' ∈ s.origins, o' ≠ o → Separate o o') (ho' : s.Settled o') :
    (unregisterOriginScripts o s).Settled o' := by
  by_cases heq : o' = o
  · subst heq
    refine .inr fun c hc horigin => ?_
    obtain ⟨hc, hkept⟩ := List.mem_filter.mp hc
    have hid := id_of_own (h.own c hc).2
    rw [horigin] at hid
    simp [hid] at hkept
  · rcases ho' with hwhole | habsent
    · have hmem : o' ∈ s.origins := List.mem_append_right _ (List.mem_map_of_mem hwhole.1)
      have hsep := hsep o' hmem heq
      refine settled_unregister (fun id hid => ?_) (.inl hwhole)
      have hid : id = mainId o ∨ id = isolatedId o := by simpa using hid
      rcases hid with rfl | rfl
      · exact hsep.main'
      · exact hsep.isolated'
    · exact .inr fun c hc => habsent c (List.mem_filter.mp hc).1

/-! ### Writes -/

theorem permitted_save (v : ExtensionVault) (s : State) : (save v s).permitted = v.permissions := rfl

theorem mem_origins_save : o ∈ (save v s).origins ↔ o ∈ v.permissions ∨ o ∈ s.registered.map (·.origin) := by
  rw [State.origins, permitted_save, List.mem_append]
  rfl

theorem kept_save (h : Kept b s) (hsettled : ∀ o' ∈ v.permissions, s.Settled o')
    (hnew : ∀ o' ∈ v.permissions, o' = o ∨ o' ∈ s.origins)
    (hsep : ∀ o' ∈ s.origins, o' ≠ o → Separate o o') : Kept b (save v s) where
  sound := {
    https := h.sound.https
    own := h.sound.own
    nodup := h.sound.nodup
    separate := by
      have horigin : ∀ o' ∈ (save v s).origins, o' = o ∨ o' ∈ s.origins := fun o' ho' =>
        (mem_origins_save.mp ho').elim (hnew o') fun hreg => .inr (List.mem_append_right _ hreg)
      intro o₁ ho₁ o₂ ho₂ hne
      rcases horigin o₁ ho₁ with rfl | hold₁
      · exact (horigin o₂ ho₂).elim (fun heq => absurd heq.symm hne) fun hold₂ => hsep o₂ hold₂ hne.symm
      · rcases horigin o₂ ho₂ with rfl | hold₂
        · exact (hsep o₁ hold₁ hne).symm
        · exact h.sound.separate o₁ hold₁ o₂ hold₂ hne }
  settled := hsettled
  fresh := fun hnone => by cases hnone

/-- A vault that trusts no more than the stored one. -/
theorem kept_save_subset (h : Kept b s) (hsub : ∀ o ∈ v.permissions, o ∈ s.permitted) : Kept b (save v s) where
  sound := {
    https := h.sound.https
    own := h.sound.own
    nodup := h.sound.nodup
    separate := by
      have horigin : ∀ o ∈ (save v s).origins, o ∈ s.origins := fun o ho =>
        (mem_origins_save.mp ho).elim (fun ho => List.mem_append_left _ (hsub o ho)) (List.mem_append_right _)
      exact fun o ho o' ho' => h.sound.separate o (horigin o ho) o' (horigin o' ho') }
  settled := fun o ho => h.settled o (hsub o ho)
  fresh := fun hnone => by cases hnone

theorem Registers.kept {origins : List Text} (hr : Registers b origins s t) (h : Kept b s)
    (horigins : ∀ o ∈ origins, o ∈ s.permitted) : Kept b t where
  sound := hr.sound h.sound horigins
  settled := fun o ho => hr.settled (h.settled o (hr.permitted ▸ ho))
  fresh := fun hnone => by
    have hstored : s.stored = none := hr.stored ▸ hnone
    have hempty := h.fresh hstored
    refine List.eq_nil_iff_forall_not_mem.mpr fun c hc => ?_
    rcases (hr.mem c).mp hc with hold | ⟨o, ho, -⟩
    · rw [hempty] at hold
      cases hold
    · have hpermitted := horigins o ho
      rw [State.permitted, hstored] at hpermitted
      cases hpermitted

theorem kept_unregister (h : Kept b s) {ids : List Text}
    (hsettled : ∀ o ∈ s.permitted, (unregister ids s).Settled o) : Kept b (unregister ids s) where
  sound := sound_unregister h.sound ids
  settled := hsettled
  fresh := fun hnone => by
    rw [unregister, h.fresh hnone]
    rfl

theorem kept_removePermission (h : Kept b s) : Kept b (removePermission o s) where
  sound := { h.sound with https := fun o' ho' => h.sound.https o' (List.mem_filter.mp ho').1 }
  settled := h.settled
  fresh := h.fresh

theorem inv_lock (h : Kept b s) : Inv b (lock s) :=
  { h with
    sound := { h.sound with }
    memory := fun v hv => by cases hv
    unlocked := fun hv => by cases hv }

/-! ### Synchronising -/

theorem mem_reconcile {granted : List Text} : o ∈ (b.reconcile granted v).permissions ↔
    o ∈ v.permissions ∧ (b.isDevOrigin o = true ∨ o ∈ granted) := by
  have hloop : ∀ (origins : List Text) (w : ExtensionVault), o ∈ (origins.foldl
      (fun w origin => if b.isDevOrigin origin || granted.contains origin then w else w.withdraw origin)
        w).permissions ↔ o ∈ w.permissions ∧ (o ∈ origins → b.isDevOrigin o = true ∨ o ∈ granted) := by
    intro origins
    induction origins with
    | nil => simp
    | cons origin origins ih =>
      intro w
      rw [List.foldl_cons, ih]
      by_cases hkeep : (b.isDevOrigin origin || granted.contains origin) = true
      · rw [if_pos hkeep]
        have hkeep : b.isDevOrigin origin = true ∨ origin ∈ granted := by simpa using hkeep
        refine and_congr_right fun _ => ⟨fun h ho => ?_, fun h ho => h (List.mem_cons_of_mem _ ho)⟩
        rcases List.mem_cons.mp ho with rfl | ho
        · exact hkeep
        · exact h ho
      · rw [if_neg hkeep]
        have hdrop : ¬ (b.isDevOrigin origin = true ∨ origin ∈ granted) := by simpa using hkeep
        simp only [ExtensionVault.withdraw, List.mem_filter, bne_iff_ne]
        constructor
        · rintro ⟨⟨ho, hne⟩, h⟩
          exact ⟨ho, fun hmem => h ((List.mem_cons.mp hmem).resolve_left hne)⟩
        · rintro ⟨ho, h⟩
          refine ⟨⟨ho, ?_⟩, fun hmem => h (List.mem_cons_of_mem _ hmem)⟩
          rintro rfl
          exact hdrop (h List.mem_cons_self)
  rw [Browser.reconcile, hloop]
  exact and_congr_right fun ho => ⟨fun h => h ho, fun h _ => h⟩

/-- The vault that is opened, and the loop over what it trusts. -/
theorem registers_reconciled (h : Kept b s) (hv : s.stored = some v) :
    Kept b (save (b.reconcile s.granted v) s) ∧
      ∀ origins, (∀ o ∈ origins, o ∈ (b.reconcile s.granted v).permissions) →
        Registers b origins (save (b.reconcile s.granted v) s)
          (apply (origins.map b.registerOriginScripts) (save (b.reconcile s.granted v) s)) := by
  have hkept : Kept b (save (b.reconcile s.granted v) s) := by
    refine kept_save_subset h fun o ho => ?_
    rw [State.permitted, hv]
    exact (mem_reconcile.mp ho).1
  exact ⟨hkept, fun origins horigins => registers_origins hkept.sound horigins hkept.settled⟩

/-- No trusted origin has a share in a stale id. -/
theorem not_prefix_stale {origins : List Text} {id : Text} (hid : id ∈ stale origins s) (ho : o ∈ origins) :
    ¬ originToScriptId o <+: id := by
  obtain ⟨c, hc, rfl⟩ := List.mem_map.mp hid
  have hnone := (Bool.and_eq_true_iff.mp (List.mem_filter.mp hc).2).2
  intro hstarts
  rw [Bool.not_eq_true', List.any_eq_false] at hnone
  exact hnone o ho (List.isPrefixOf_iff_prefix.mpr hstarts)

/-- A script whose origin is not trusted is stale. -/
theorem mem_stale (h : Sound b s) (hc : c ∈ s.registered) (hno : c.origin ∉ s.permitted) :
    c.id ∈ stale s.permitted s := by
  refine List.mem_map.mpr ⟨c, List.mem_filter.mpr ⟨hc, Bool.and_eq_true_iff.mpr ⟨?_, ?_⟩⟩, rfl⟩
  · refine List.isPrefixOf_iff_prefix.mpr (List.IsPrefix.trans ?_ (prefix_id (h.own c hc).2))
    exact List.prefix_append _ _
  · rw [Bool.not_eq_true', List.any_eq_false]
    intro o ho hstarts
    have horigin := h.origin_eq hc (List.mem_append_left _ ho) (List.isPrefixOf_iff_prefix.mp hstarts)
    exact hno (horigin ▸ ho)

/-- What a stopped synchronisation has written is kept. -/
theorem kept_sync_take (h : Kept b s) (n : ℕ) : Kept b (apply ((b.syncDynamicScripts s).take n) s) := by
  rw [Browser.syncDynamicScripts]
  cases hv : s.stored with
  | none => simpa [apply] using h
  | some v =>
    obtain ⟨hkept, hregisters⟩ := registers_reconciled h hv
    cases n with
    | zero => exact h
    | succ n =>
      simp only [List.take_succ_cons, List.take_append, apply_cons, apply_append, ← List.map_take,
        apply_unregister]
      have hmem : ∀ o ∈ (b.reconcile s.granted v).permissions.take n, o ∈ (b.reconcile s.granted v).permissions :=
        fun o ho => List.mem_of_mem_take ho
      have hloop := hregisters _ hmem
      have hkept' := hloop.kept hkept hmem
      refine kept_unregister hkept' fun o ho => ?_
      rw [hloop.permitted] at ho
      exact settled_unregister (fun id hid => not_prefix_stale (List.mem_of_mem_take hid) ho)
        (hkept'.settled o (hloop.permitted ▸ ho))

/-- Unregistering the stale scripts leaves those of the trusted origins. -/
theorem exact_unregister (h : Kept b s) (hgranted : ∀ o ∈ s.permitted, b.isDevOrigin o = true ∨ o ∈ s.granted)
    (hwhole : ∀ o ∈ s.permitted, o ∈ s.granted → s.Whole o) : Exact (unregister (stale s.permitted s) s) where
  mem := fun c => by
    constructor
    · intro hc
      obtain ⟨hc, hkeep⟩ := List.mem_filter.mp hc
      obtain ⟨hdev, hform⟩ := h.sound.own c hc
      have hpermits : c.origin ∈ s.permitted := by
        by_contra hno
        simp [mem_stale h.sound hc hno] at hkeep
      exact ⟨c.origin, hpermits, (hgranted _ hpermits).resolve_left (by simp [hdev]), hform⟩
    · rintro ⟨o, ho, hgranted, hform⟩
      have hc : c ∈ s.registered ∧ originToScriptId o <+: c.id := by
        rcases hform with rfl | rfl
        · exact ⟨(hwhole o ho hgranted).1, prefix_mainId o⟩
        · exact ⟨(hwhole o ho hgranted).2, prefix_isolatedId o⟩
      refine List.mem_filter.mpr ⟨hc.1, ?_⟩
      simpa using fun hid : c.id ∈ stale s.permitted s => not_prefix_stale hid ho hc.2
  nodup := (sound_unregister h.sound _).nodup.of_map _

/-- After the synchronisation, the scripts are exactly those of the trusted origins. -/
theorem exact_sync (h : Kept b s) : Exact (apply (b.syncDynamicScripts s) s) := by
  rw [Browser.syncDynamicScripts]
  cases hv : s.stored with
  | none =>
    have hempty := h.fresh hv
    have hpermitted : s.permitted = [] := by
      rw [State.permitted, hv]
      rfl
    refine ⟨fun c => ?_, ?_⟩
    · simp [apply, hempty, hpermitted]
    · simp [apply, hempty]
  | some v =>
    obtain ⟨hkept, hregisters⟩ := registers_reconciled h hv
    have hloop := hregisters _ fun _ ho => ho
    have hpermitted := hloop.permitted
    rw [permitted_save] at hpermitted
    simp only [apply_cons, apply_append, apply_unregister]
    have hexact := exact_unregister (hloop.kept hkept fun _ ho => ho) (fun o ho => ?_) fun o ho hgranted => ?_
    · rwa [hpermitted] at hexact
    · rw [hpermitted] at ho
      rw [hloop.granted]
      exact (mem_reconcile.mp ho).2
    · rw [hpermitted] at ho
      rw [hloop.granted] at hgranted
      have hdev := isHttps_not_dev (b := b) (h.sound.https o hgranted)
      exact ⟨(hloop.mem _).mpr (.inr ⟨o, ho, hdev, hgranted, .inl rfl⟩),
        (hloop.mem _).mpr (.inr ⟨o, ho, hdev, hgranted, .inr rfl⟩)⟩

/-- Where the scripts are exact, every origin has both of its own or none. -/
theorem Exact.settled (h : Exact s) (o : Text) : s.Settled o := by
  by_cases ho : o ∈ s.permitted ∧ o ∈ s.granted
  · exact .inl ⟨(h.mem _).mpr ⟨o, ho.1, ho.2, .inl rfl⟩, (h.mem _).mpr ⟨o, ho.1, ho.2, .inr rfl⟩⟩
  · refine .inr fun c hc heq => ho ?_
    obtain ⟨o', ho', hgranted, rfl | rfl⟩ := (h.mem c).mp hc
    · exact heq ▸ ⟨ho', hgranted⟩
    · exact heq ▸ ⟨ho', hgranted⟩

/-! ### Calls -/

/-- The origin that a call trusts or removes. -/
def Call.origin : Call → Option Text
  | .connect origin | .addTrustedSite origin | .removeTrustedSite origin => some origin
  | .setupPassword | .unlock => none

/-- The origin of the call is separate from those that are trusted or have scripts. -/
def Call.IsSeparate (call : Call) (s : State) : Prop :=
  ∀ o, call.origin = some o → ∀ o' ∈ s.origins, o' ≠ o → Separate o o'

theorem mem_permit : o' ∈ (v.permit o).permissions ↔ o' = o ∨ o' ∈ v.permissions := List.mem_insert_iff

/-- The vault with one more trusted origin. -/
theorem kept_permit (h : Inv b s) (hv : s.vault = some v) (hsep : ∀ o' ∈ s.origins, o' ≠ o → Separate o o') :
    Kept b (save (v.permit o) s) := by
  have hsettled := h.unlocked (by rw [hv]; rfl)
  refine kept_save h.toKept (fun o' _ => hsettled o') (fun o' ho' => ?_) hsep
  rcases mem_permit.mp ho' with heq | ho'
  · exact .inl heq
  · refine .inr (List.mem_append_left _ ?_)
    rw [State.permitted, h.memory v hv]
    exact ho'

/-- What a call can write. -/
inductive Makes (b : Browser) (s : State) : Call → List Write → Prop
  | nothing (call : Call) : Makes b s call []
  | setup (hnone : s.stored = none) : Makes b s .setupPassword [save .empty]
  | connect (o : Text) (v : ExtensionVault) (hv : s.vault = some v) : Makes b s (.connect o) [save (v.permit o)]
  | add (o : Text) (v : ExtensionVault) (hv : s.vault = some v) :
      Makes b s (.addTrustedSite o) [save (v.permit o), b.registerOriginScripts o]
  | remove (o : Text) (v : ExtensionVault) (hv : s.vault = some v) :
      Makes b s (.removeTrustedSite o) [save (v.withdraw o), unregisterOriginScripts o, removePermission o]
  | unlock (v : ExtensionVault) (hv : s.stored = some v) : Makes b s .unlock (b.syncDynamicScripts s)

theorem makes_writes (b : Browser) (s : State) (call : Call) : Makes b s call (b.writes s call) := by
  cases call with
  | setupPassword =>
    rw [Browser.writes]
    split
    · exact .nothing _
    · next hnone => exact .setup (by simpa using hnone)
  | connect o =>
    rw [Browser.writes]
    split
    · exact .nothing _
    · next v hv =>
      split
      · exact .nothing _
      · exact .connect o v hv
  | addTrustedSite o =>
    rw [Browser.writes]
    split
    · exact .nothing _
    · next v hv =>
      split
      · exact .nothing _
      · exact .add o v hv
  | removeTrustedSite o =>
    rw [Browser.writes]
    split
    · exact .nothing _
    · next v hv =>
      split
      · exact .nothing _
      · exact .remove o v hv
  | unlock =>
    rw [Browser.writes]
    cases hv : s.stored with
    | none =>
      rw [Browser.syncDynamicScripts, hv]
      exact .nothing _
    | some v => exact .unlock v hv

/-- The vault with one trusted origin less. -/
theorem kept_withdraw (h : Inv b s) (hv : s.vault = some v) : Kept b (save (v.withdraw o) s) :=
  kept_save_subset h.toKept fun o' ho' => by
    rw [State.permitted, h.memory v hv]
    exact (List.mem_filter.mp ho').1

theorem origins_withdraw (h : Inv b s) (hv : s.vault = some v) (ho' : o' ∈ (save (v.withdraw o) s).origins) :
    o' ∈ s.origins := by
  rcases mem_origins_save.mp ho' with ho' | ho'
  · refine List.mem_append_left _ ?_
    rw [State.permitted, h.memory v hv]
    exact (List.mem_filter.mp ho').1
  · exact List.mem_append_right _ ho'

/-- What a stopped call has written is kept. -/
theorem kept_take {call : Call} {writes : List Write} (h : Inv b s) (hmakes : Makes b s call writes)
    (hsep : call.IsSeparate s) (n : ℕ) : Kept b (apply (writes.take n) s) := by
  cases hmakes with
  | nothing => simpa [apply] using h.toKept
  | setup =>
    have hsave : Kept b (save .empty s) := kept_save_subset h.toKept fun o ho => by cases ho
    rcases n with _ | n
    · exact h.toKept
    · simpa [apply] using hsave
  | connect o v hv =>
    rcases n with _ | n
    · exact h.toKept
    · simpa [apply] using kept_permit h hv (hsep o rfl)
  | add o v hv =>
    have hpermit := kept_permit h hv (hsep o rfl)
    have ho : o ∈ (save (v.permit o) s).permitted := mem_permit.mpr (.inl rfl)
    have hregister := (registers_origin hpermit.sound ho (hpermit.settled o ho)).kept hpermit
      fun o' ho' => List.mem_singleton.mp ho' ▸ ho
    rcases n with _ | _ | n
    · exact h.toKept
    · exact hpermit
    · simpa [apply] using hregister
  | remove o v hv =>
    have hsettled := h.unlocked (by rw [hv]; rfl)
    have hwithdraw := kept_withdraw (o := o) h hv
    have hunregister : Kept b (unregisterOriginScripts o (save (v.withdraw o) s)) :=
      kept_unregister hwithdraw fun o' _ => settled_unregisterOriginScripts hwithdraw.sound
        (fun o'' ho'' => hsep o rfl o'' (origins_withdraw h hv ho'')) (hsettled o')
    rcases n with _ | _ | _ | n
    · exact h.toKept
    · exact hwithdraw
    · exact hunregister
    · simpa [apply] using kept_removePermission hunregister
  | unlock => exact kept_sync_take h.toKept n

/-- The opened vault is the stored one. -/
theorem sync_memory (h : Kept b s) (hv : s.stored = some v) :
    (apply (b.syncDynamicScripts s) s).vault = (apply (b.syncDynamicScripts s) s).stored := by
  obtain ⟨-, hregisters⟩ := registers_reconciled h hv
  have hloop := hregisters _ fun _ ho => ho
  rw [Browser.syncDynamicScripts, hv]
  simp only [apply_cons, apply_append, apply_unregister]
  exact hloop.vault.trans hloop.stored.symm

/-- A call that ends keeps what holds between calls. -/
theorem inv_call {call : Call} {writes : List Write} (h : Inv b s) (hmakes : Makes b s call writes)
    (hsep : call.IsSeparate s) : Inv b (apply writes s) := by
  have hkept := kept_take h hmakes hsep writes.length
  rw [List.take_length] at hkept
  cases hmakes with
  | nothing => exact h
  | setup hnone =>
    refine ⟨hkept, fun v hv => hv, fun _ o => .inr fun c hc => ?_⟩
    have hc : c ∈ s.registered := hc
    rw [h.fresh hnone] at hc
    cases hc
  | connect o v hv => exact ⟨hkept, fun w hw => hw, fun _ o' => h.unlocked (by rw [hv]; rfl) o'⟩
  | add o v hv =>
    have hpermit := kept_permit h hv (hsep o rfl)
    have ho : o ∈ (save (v.permit o) s).permitted := mem_permit.mpr (.inl rfl)
    have hregister := registers_origin hpermit.sound ho (hpermit.settled o ho)
    refine ⟨hkept, fun w hw => ?_, fun _ o' => ?_⟩
    · exact hregister.stored.trans (hregister.vault.symm.trans hw)
    · exact hregister.settled (h.unlocked (by rw [hv]; rfl) o')
  | remove o v hv =>
    refine ⟨hkept, fun w hw => hw, fun _ o' => ?_⟩
    exact settled_unregisterOriginScripts (kept_withdraw h hv).sound
      (fun o'' ho'' => hsep o rfl o'' (origins_withdraw h hv ho'')) (h.unlocked (by rw [hv]; rfl) o')
  | unlock v hv =>
    exact ⟨hkept, fun w hw => (sync_memory h.toKept hv).symm.trans hw, fun _ => (exact_sync h.toKept).settled⟩

/-! ### Runs -/

/-- The origin of what happens is separate from those that are trusted or have scripts. -/
def Event.IsSeparate (s : State) : Event → Prop
  | .call c | .interrupt c _ => c.IsSeparate s
  | .lock | .grant _ | .revoke _ => True

theorem inv_step (h : Inv b s) {e : Event} (hsep : e.IsSeparate s) : Inv b (b.step s e) := by
  cases e with
  | call call => exact inv_call h (makes_writes b s call) hsep
  | interrupt call n => exact inv_lock (kept_take h (makes_writes b s call) hsep n)
  | lock => exact inv_lock h.toKept
  | grant o =>
    rw [Browser.step]
    split
    · next hhttps =>
      have hgranted : ∀ o' ∈ s.granted.insert o, isHttps o' = true := fun o' ho' =>
        (List.mem_insert_iff.mp ho').elim (fun heq => heq ▸ hhttps) (h.sound.https o')
      exact { h with sound := { h.sound with https := hgranted } }
    · exact h
  | revoke o => exact { h with sound := (kept_removePermission h.toKept).sound }

theorem inv_installed : Inv b installed where
  sound := ⟨fun o ho => (by cases ho), fun c hc => (by cases hc), List.nodup_nil, fun o ho => (by cases ho)⟩
  settled := fun o ho => by cases ho
  fresh := fun _ => rfl
  memory := fun v hv => by cases hv
  unlocked := fun hv => by cases hv

end invariant

/-- In every run whose origins are separate, each synchronisation leaves exactly the two scripts of each trusted
origin with a host permission. -/
theorem content_scripts_exact (b : Browser) (events : List Event) (s : State)
    (h : Run (restrict Event.IsSeparate (ofFun b.step)) installed events s) : Exact (b.step s (.call .unlock)) := by
  have hinv : Inv b s := Run.invariant (I := Inv b) (fun s e t hs hstep => by
    obtain ⟨hsep, rfl⟩ := hstep
    exact inv_step hs hsep) h inv_installed
  exact exact_sync hinv.toKept

/-! ## Two sites with one id -/

section sample

def sampleSite : Text := lit "https://a-b.example"

def sampleTwin : Text := lit "https://a.b.example"

def sampleOther : Text := lit "https://c.example"

def sampleBrowser : Browser where
  url origin := if isHttps origin then some ⟨lit "https:", origin.drop 8⟩ else none
  protocol_https origin u hhttps hu := by
    rw [if_pos hhttps] at hu
    obtain rfl := Option.some.inj hu
    rfl

/-- Two sites are granted a host permission and trusted. -/
def sampleEvents (site other : Text) : List Event :=
  [.call .setupPassword, .grant site, .call (.addTrustedSite site), .grant other, .call (.addTrustedSite other)]

theorem content_scripts_exact_sample : Exact (sampleBrowser.step
    ((sampleEvents sampleSite sampleOther).foldl sampleBrowser.step installed) (.call .unlock)) := by
  have hsep : Separate sampleOther sampleSite :=
    ⟨by decide +kernel, by decide +kernel, by decide +kernel, by decide +kernel⟩
  refine content_scripts_exact sampleBrowser (sampleEvents sampleSite sampleOther) _
    (.cons ⟨?_, rfl⟩ (.cons ⟨trivial, rfl⟩ (.cons ⟨?_, rfl⟩ (.cons ⟨trivial, rfl⟩ (.cons ⟨?_, rfl⟩ (.nil _))))))
  · intro o ho
    cases ho
  · intro o ho o' ho' hne
    cases ho'
  · intro o ho o' ho' hne
    obtain rfl := Option.some.inj ho
    have horigins : State.origins (((sampleEvents sampleSite sampleOther).take 4).foldl sampleBrowser.step
        installed) = [sampleSite, sampleSite, sampleSite] := by decide +kernel
    have ho' : o' ∈ [sampleSite, sampleSite, sampleSite] := horigins ▸ ho'
    obtain rfl : o' = sampleSite := by simpa using ho'
    exact hsep

/-- The site that is trusted second gets no scripts, at the synchronisation either. -/
theorem not_content_scripts_exact : ¬ ∀ (b : Browser) (events : List Event) (s : State),
    Run (ofFun b.step) installed events s → Exact (b.step s (.call .unlock)) := by
  intro h
  have hexact := h sampleBrowser (sampleEvents sampleSite sampleTwin) _ (Run.ofFun_foldl _ _ _)
  have hmissing : mainScript sampleTwin ∉ (sampleBrowser.step
      ((sampleEvents sampleSite sampleTwin).foldl sampleBrowser.step installed) (.call .unlock)).registered := by
    decide +kernel
  refine hmissing ((hexact.mem _).mpr ⟨sampleTwin, ?_, ?_, .inl rfl⟩)
  · decide +kernel
  · decide +kernel

end sample

end Kryptolog.Extension.ContentScripts
