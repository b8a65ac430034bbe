import Mathlib.Algebra.Ring.Int.Defs
import Mathlib.Algebra.Ring.Nat
import Kryptolog.Library.Runs

/-! # The ceiling on a request body

`security/body_limit.py`: a middleware between an ASGI server and an application. The application is any state
machine that receives, sends, returns and raises; what the server's `receive` and `send` answer is an event.
-/

namespace Kryptolog.Server.BodyLimit
set_option autoImplicit false

open Runs

/-! ## Messages and applications -/

/-- A message of either direction. -/
structure AsgiMessage where
  type : String
  status : Option ℕ
  body : Option (List UInt8)
  deriving DecidableEq

inductive Exn
  | bodyTooLarge
  | other (name : String)
  deriving DecidableEq

/-- What an application does next, and how it goes on. -/
inductive Call (σ : Type)
  | receive (resume : Except Exn AsgiMessage → σ)
  | send (message : AsgiMessage) (resume : Except Exn Unit → σ)
  | returns
  | raises (exn : Exn)

structure Application where
  State : Type
  start : State
  step : State → Call State

structure Scope where
  type : String
  headers : List (List UInt8 × List UInt8)

/-! ## The middleware -/

/-- `MAX_BODY_BYTES`. -/
def maxBodyBytes : ℕ := 8 * 1024 * 1024

/-- `_DETAIL`. -/
def detail : String := s!"Request body too large (max {maxBodyBytes / (1024 * 1024)} MB)"

def startType : String := "http.response.start"

/-- The response of `_too_large`. -/
def tooLarge : List AsgiMessage :=
  [⟨startType, some 413, none⟩,
    ⟨"http.response.body", none, some ("\x7b\"detail\":\"" ++ detail ++ "\"\x7d").toUTF8.toList⟩]

/-- `int(text)` of decimal digits, with a sign, blanks around it and underscores between the digits: at most 4300
digits. -/
def pyInt (text : List UInt8) : Option ℤ :=
  let isBlank (b : UInt8) : Bool := b == 32 || (9 ≤ b && b ≤ 13)
  let isDigit (b : UInt8) : Bool := 48 ≤ b && b ≤ 57
  let trimmed := ((text.dropWhile isBlank).reverse.dropWhile isBlank).reverse
  let negative := trimmed.head? == some 45
  let number := if negative || trimmed.head? == some 43 then trimmed.tail else trimmed
  let groups := number.splitOnP (· == 95)
  let digits := groups.flatten
  if groups.any List.isEmpty || !digits.all isDigit || 4300 < digits.length then none
  else
    let value : ℤ := digits.foldl (fun n b => 10 * n + (b.toNat - 48 : ℕ)) (0 : ℤ)
    some (if negative then -value else value)

/-- `b"content-length"`. -/
def contentLength : List UInt8 := "content-length".toUTF8.toList

/-- The declared length is over the limit, or is no number. A `dict` keeps the last header of a name. -/
def isRefused (maxBytes : ℕ) (scope : Scope) : Bool :=
  match scope.headers.reverse.lookup contentLength with
  | none => false
  | some declared => (pyInt declared).all fun n => (maxBytes : ℤ) < n

/-- `counting_receive`: the bytes seen, and what the application gets. -/
def countingReceive (maxBytes seen : ℕ) (message : AsgiMessage) : ℕ × Except Exn AsgiMessage :=
  if message.type == "http.request" then
    let seen := seen + (message.body.getD []).length
    (seen, if maxBytes < seen then .error .bodyTooLarge else .ok message)
  else (seen, .ok message)

/-- Who called the server's `send`. -/
inductive Sender
  | application
  | middleware
  deriving DecidableEq

inductive Phase (σ : Type)
  | running (s : σ)
  | answering (left : List AsgiMessage)
  | ended (outcome : Except Exn Unit)

/-- A call of the middleware under way: `wrapped` where the application got the counting callbacks, what it was
handed, and what went to the server. -/
structure Exchange (σ : Type) where
  phase : Phase σ
  wrapped : Bool
  seen : ℕ
  started : Bool
  handed : List AsgiMessage
  sent : List (Sender × AsgiMessage)

/-- What the server does: it answers a `receive` or a `send`, or the call comes back. -/
inductive Event
  | received (result : Except Exn AsgiMessage)
  | sent (result : Except Exn Unit)
  | ended

/-- `BodySizeLimitMiddleware.__call__`, up to the first callback. -/
def call (app : Application) (maxBytes : ℕ) (scope : Scope) : Exchange app.State where
  phase := if scope.type == "http" && isRefused maxBytes scope then .answering tooLarge else .running app.start
  wrapped := scope.type == "http"
  seen := 0
  started := false
  handed := []
  sent := []

/-- The application on the server itself. -/
def bare (app : Application) : Exchange app.State where
  phase := .running app.start
  wrapped := false
  seen := 0
  started := false
  handed := []
  sent := []

section steps

variable {σ : Type}

/-- The server answers a `receive` of the application. -/
def receiveStep (maxBytes : ℕ) (resume : Except Exn AsgiMessage → σ) (result : Except Exn AsgiMessage)
    (x : Exchange σ) : Exchange σ :=
  match result with
  | .error exn => { x with phase := .running (resume (.error exn)) }
  | .ok message =>
    if x.wrapped then
      let answer := countingReceive maxBytes x.seen message
      { x with
        phase := .running (resume answer.2)
        seen := answer.1
        handed := x.handed ++ answer.2.toOption.toList }
    else { x with phase := .running (resume (.ok message)), handed := x.handed ++ [message] }

/-- A `send` of the application, and how the server answers it: `tracking_send`. -/
def sendStep (message : AsgiMessage) (s : σ) (x : Exchange σ) : Exchange σ :=
  { x with
    phase := .running s
    started := x.started || (x.wrapped && message.type == startType)
    sent := x.sent ++ [(.application, message)] }

/-- An exception of the application reaches the middleware. -/
def raiseStep (exn : Exn) (x : Exchange σ) : Exchange σ :=
  if x.wrapped && exn == .bodyTooLarge then
    if x.started then { x with phase := .ended (.ok ()) } else { x with phase := .answering tooLarge }
  else { x with phase := .ended (.error exn) }

/-- One message of the middleware's own response, and how the server answers it. -/
def answerStep (message : AsgiMessage) (left : List AsgiMessage) (result : Except Exn Unit) (x : Exchange σ) :
    Exchange σ :=
  let sent := x.sent ++ [(.middleware, message)]
  match result with
  | .ok () => { x with phase := .answering left, sent := sent }
  | .error exn => { x with phase := .ended (.error exn), sent := sent }

end steps

/-- One event. -/
def step (app : Application) (maxBytes : ℕ) (x : Exchange app.State) (e : Event) : Option (Exchange app.State) :=
  match x.phase, e with
  | .running s, e =>
    match app.step s, e with
    | .receive resume, .received result => some (receiveStep maxBytes resume result x)
    | .send message resume, .sent result => some (sendStep message (resume result) x)
    | .returns, .ended => some { x with phase := .ended (.ok ()) }
    | .raises exn, .ended => some (raiseStep exn x)
    | _, _ => none
  | .answering (message :: left), .sent result => some (answerStep message left result x)
  | .answering [], .ended => some { x with phase := .ended (.ok ()) }
  | _, _ => none

/-! ## What is kept -/

/-- The bytes of the body that some messages carry. -/
def bodyBytes (messages : List AsgiMessage) : ℕ :=
  ((messages.filter (·.type == "http.request")).map fun m => (m.body.getD []).length).sum

/-- What the server delivered. -/
def delivered : List Event → List AsgiMessage
  | [] => []
  | .received (.ok message) :: events => message :: delivered events
  | _ :: events => delivered events

theorem delivered_cons (e : Event) (events : List Event) :
    delivered (e :: events) = delivered [e] ++ delivered events := by
  rcases e with (exn | message) | result | _ <;> rfl

/-- The message starts a response. -/
def Starts (message : AsgiMessage) : Prop := message.type = startType

/-- A response that the middleware starts is the first. -/
def Follows (e e' : Sender × AsgiMessage) : Prop := e'.1 = .middleware → Starts e'.2 → ¬ Starts e.2

/-- The bytes are counted, and a body is handed on while it is within the limit. -/
structure Counts {σ : Type} (maxBytes : ℕ) (got : List AsgiMessage) (x : Exchange σ) : Prop where
  wrapped : x.wrapped = true
  seen : x.seen = bodyBytes got
  handed_le : bodyBytes x.handed ≤ maxBytes
  handed_le_seen : bodyBytes x.handed ≤ x.seen
  unchanged : x.seen ≤ maxBytes → x.handed = got

/-- The flag is up once the application has started a response, and the middleware starts its own before any. -/
structure Tracks {σ : Type} (x : Exchange σ) : Prop where
  wrapped : x.wrapped = true
  flag : x.started = false → ∀ e ∈ x.sent, e.1 = .application → ¬ Starts e.2
  flagged : x.started = true → ∃ e ∈ x.sent, Starts e.2
  before : x.sent.Pairwise Follows
  running : ∀ s, x.phase = .running s → ∀ e ∈ x.sent, e.1 = .application
  answering : ∀ left, x.phase = .answering left → (∀ m ∈ left, ¬ Starts m) ∨
    left = tooLarge ∧ ∀ e ∈ x.sent, ¬ Starts e.2

/-- A refused request: only the middleware's own response goes out, and nothing is handed on. -/
structure Refuses {σ : Type} (x : Exchange σ) : Prop where
  handed : x.handed = []
  idle : ∀ s, x.phase ≠ .running s
  sent : x.sent <+: tooLarge.map (Prod.mk Sender.middleware)
  left : ∀ left, x.phase = .answering left →
    x.sent ++ left.map (Prod.mk Sender.middleware) = tooLarge.map (Prod.mk Sender.middleware)

/-- The middleware starts a 413 when the application comes back. -/
def Answers413 (app : Application) (maxBytes : ℕ) (x : Exchange app.State) : Prop :=
  ∃ a, step app maxBytes x .ended = some a ∧ ∀ result, ∃ y, step app maxBytes a (.sent result) = some y ∧
    y.sent = x.sent ++ [(.middleware, ⟨startType, some 413, none⟩)]

/-- An exchange `x` that goes on as the application does by itself in `y`. -/
structure Mirrors {σ : Type} (maxBytes : ℕ) (got : List AsgiMessage) (y x : Exchange σ) : Prop where
  bare : y.wrapped = false
  counts : Counts maxBytes got x
  sent : x.sent = y.sent
  phase : (∃ s, y.phase = .running s ∧ x.phase = .running s) ∨ ∃ outcome, y.phase = .ended outcome

section kept

variable {app : Application} {maxBytes : ℕ} {scope : Scope} {x y z : Exchange app.State} {e : Event}
  {got : List AsgiMessage}

theorem bodyBytes_append (xs ys : List AsgiMessage) : bodyBytes (xs ++ ys) = bodyBytes xs + bodyBytes ys := by
  simp [bodyBytes]

theorem bodyBytes_request {m : AsgiMessage} (h : m.type = "http.request") :
    bodyBytes [m] = (m.body.getD []).length := by
  simp [bodyBytes, h]

theorem bodyBytes_other {m : AsgiMessage} (h : m.type ≠ "http.request") : bodyBytes [m] = 0 := by
  simp [bodyBytes, h]

/-- A message within the limit, or of another type, is handed on. -/
theorem countingReceive_le {seen : ℕ} {m : AsgiMessage} (h : seen + bodyBytes [m] ≤ maxBytes) :
    countingReceive maxBytes seen m = (seen + bodyBytes [m], .ok m) := by
  rw [countingReceive]
  by_cases hrequest : m.type = "http.request"
  · rw [bodyBytes_request hrequest] at h ⊢
    rw [if_pos (beq_iff_eq.mpr hrequest)]
    simp only
    rw [if_neg (Nat.not_lt.mpr h)]
  · rw [if_neg (fun hb => hrequest (beq_iff_eq.mp hb)), bodyBytes_other hrequest, Nat.add_zero]

/-- Past the limit the application gets the error, whatever part of the body comes. -/
theorem countingReceive_gt {seen : ℕ} {m : AsgiMessage} (hrequest : m.type = "http.request")
    (h : maxBytes < seen + bodyBytes [m]) :
    countingReceive maxBytes seen m = (seen + bodyBytes [m], .error .bodyTooLarge) := by
  rw [bodyBytes_request hrequest] at h ⊢
  rw [countingReceive, if_pos (beq_iff_eq.mpr hrequest)]
  simp only
  rw [if_pos h]

theorem receiveStep_ok {resume : Except Exn AsgiMessage → app.State} {m : AsgiMessage} (h : x.wrapped = true) :
    receiveStep maxBytes resume (.ok m) x =
      { x with
        phase := .running (resume (countingReceive maxBytes x.seen m).2)
        seen := (countingReceive maxBytes x.seen m).1
        handed := x.handed ++ (countingReceive maxBytes x.seen m).2.toOption.toList } := by
  rw [receiveStep, if_pos h]

theorem counts_received {resume : Except Exn AsgiMessage → app.State} {result : Except Exn AsgiMessage}
    (h : Counts maxBytes got x) :
    Counts maxBytes (got ++ delivered [.received result]) (receiveStep maxBytes resume result x) := by
  have hle := h.handed_le
  have hseen := h.handed_le_seen
  cases result with
  | error exn =>
    rw [show delivered [.received (.error exn)] = [] from rfl, List.append_nil]
    exact ⟨h.wrapped, h.seen, hle, hseen, h.unchanged⟩
  | ok m =>
    have hgot : x.seen + bodyBytes [m] = bodyBytes (got ++ [m]) := by rw [bodyBytes_append, h.seen]
    have hhanded : bodyBytes (x.handed ++ [m]) = bodyBytes x.handed + bodyBytes [m] := bodyBytes_append ..
    rw [show delivered [.received (.ok m)] = [m] from rfl, receiveStep_ok h.wrapped]
    by_cases hover : x.seen + bodyBytes [m] ≤ maxBytes
    · rw [countingReceive_le hover]
      refine ⟨h.wrapped, hgot, ?_, ?_, fun _ => congrArg (· ++ [m]) (h.unchanged (by omega))⟩
      · show bodyBytes (x.handed ++ [m]) ≤ maxBytes
        omega
      · show bodyBytes (x.handed ++ [m]) ≤ x.seen + bodyBytes [m]
        omega
    · by_cases hrequest : m.type = "http.request"
      · -- the message is dropped, and so is every later part of the body
        rw [countingReceive_gt hrequest (Nat.not_le.mp hover)]
        refine ⟨h.wrapped, hgot, ?_, ?_, fun hwithin => absurd hwithin hover⟩
        · show bodyBytes (x.handed ++ []) ≤ maxBytes
          rw [List.append_nil]
          exact hle
        · show bodyBytes (x.handed ++ []) ≤ x.seen + bodyBytes [m]
          rw [List.append_nil]
          omega
      · have hother : countingReceive maxBytes x.seen m = (x.seen, .ok m) := by
          rw [countingReceive, if_neg (fun hb => hrequest (beq_iff_eq.mp hb))]
        rw [bodyBytes_other hrequest, Nat.add_zero] at hgot hhanded hover
        rw [hother]
        refine ⟨h.wrapped, hgot, ?_, ?_, fun hwithin => absurd hwithin hover⟩
        · show bodyBytes (x.handed ++ [m]) ≤ maxBytes
          omega
        · show bodyBytes (x.handed ++ [m]) ≤ x.seen
          omega

theorem Counts.congr {σ : Type} {x y : Exchange σ} (h : Counts maxBytes got x) (hw : y.wrapped = x.wrapped)
    (hs : y.seen = x.seen) (hh : y.handed = x.handed) : Counts maxBytes got y := by
  refine ⟨hw.trans h.wrapped, hs.trans h.seen, ?_, ?_, ?_⟩
  · rw [hh]
    exact h.handed_le
  · rw [hh, hs]
    exact h.handed_le_seen
  · rw [hh, hs]
    exact h.unchanged

theorem counts_step (h : Counts maxBytes got x) (hstep : step app maxBytes x e = some y) :
    Counts maxBytes (got ++ delivered [e]) y := by
  unfold step at hstep
  split at hstep
  · split at hstep
    · obtain rfl := Option.some.inj hstep
      exact counts_received h
    · obtain rfl := Option.some.inj hstep
      rw [show delivered [.sent _] = [] from rfl, List.append_nil]
      exact h.congr rfl rfl rfl
    · obtain rfl := Option.some.inj hstep
      rw [show delivered [.ended] = [] from rfl, List.append_nil]
      exact h.congr rfl rfl rfl
    · obtain rfl := Option.some.inj hstep
      rw [show delivered [.ended] = [] from rfl, List.append_nil, raiseStep]
      split
      · split
        · exact h.congr rfl rfl rfl
        · exact h.congr rfl rfl rfl
      · exact h.congr rfl rfl rfl
    · cases hstep
  · rename_i message left result _
    obtain rfl := Option.some.inj hstep
    rw [show delivered [.sent _] = [] from rfl, List.append_nil]
    cases result with
    | ok _ => exact h.congr rfl rfl rfl
    | error exn => exact h.congr rfl rfl rfl
  · obtain rfl := Option.some.inj hstep
    rw [show delivered [.ended] = [] from rfl, List.append_nil]
    exact h.congr rfl rfl rfl
  · cases hstep

/-! ## The response -/

theorem Tracks.quiet {σ : Type} {x y : Exchange σ} (h : Tracks x) (hw : y.wrapped = x.wrapped)
    (hf : y.started = x.started) (hs : y.sent = x.sent) (hrunning : ∀ s, y.phase = .running s →
      ∃ s', x.phase = .running s') (hanswering : ∀ left, y.phase ≠ .answering left) : Tracks y := by
  refine ⟨hw.trans h.wrapped, ?_, ?_, ?_, ?_, fun left hleft => absurd hleft (hanswering left)⟩
  · rw [hf, hs]
    exact h.flag
  · rw [hf, hs]
    exact h.flagged
  · rw [hs]
    exact h.before
  · intro s hrun
    obtain ⟨s', hs'⟩ := hrunning s hrun
    rw [hs]
    exact h.running s' hs'

theorem tracks_received {s : app.State} {resume : Except Exn AsgiMessage → app.State}
    {result : Except Exn AsgiMessage} (hphase : x.phase = .running s) (h : Tracks x) :
    Tracks (receiveStep maxBytes resume result x) := by
  cases result with
  | error exn => exact h.quiet rfl rfl rfl (fun _ _ => ⟨s, hphase⟩) (by simp [receiveStep])
  | ok m =>
    rw [receiveStep_ok h.wrapped]
    exact h.quiet rfl rfl rfl (fun _ _ => ⟨s, hphase⟩) (by simp)

theorem tracks_sent {s s' : app.State} {m : AsgiMessage} (hphase : x.phase = .running s) (h : Tracks x) :
    Tracks (sendStep m s' x) := by
  have happlication := h.running s hphase
  refine ⟨h.wrapped, ?_, ?_, ?_, ?_, by simp [sendStep]⟩
  · intro hflag e he hby
    simp only [sendStep, h.wrapped, Bool.true_and, Bool.or_eq_false_iff, beq_eq_false_iff_ne] at hflag
    rcases List.mem_append.mp he with hold | hnew
    · exact h.flag hflag.1 e hold hby
    · rw [List.mem_singleton.mp hnew]
      exact hflag.2
  · intro hflag
    simp only [sendStep, h.wrapped, Bool.true_and, Bool.or_eq_true, beq_iff_eq] at hflag
    rcases hflag with hbefore | hstarts
    · obtain ⟨e, he, hes⟩ := h.flagged hbefore
      exact ⟨e, List.mem_append_left _ he, hes⟩
    · exact ⟨(.application, m), List.mem_append_right _ (List.mem_singleton.mpr rfl), hstarts⟩
  · refine List.pairwise_append.mpr ⟨h.before, List.pairwise_singleton _ _, ?_⟩
    intro e _ e' he' hby
    rw [List.mem_singleton.mp he'] at hby
    cases hby
  · intro _ _ e he
    rcases List.mem_append.mp he with hold | hnew
    · exact happlication e hold
    · rw [List.mem_singleton.mp hnew]

/-- The middleware answers itself only where nothing was started. -/
theorem tracks_raised {s : app.State} {exn : Exn} (hphase : x.phase = .running s) (h : Tracks x) :
    Tracks (raiseStep exn x) := by
  rw [raiseStep]
  split
  · split
    · exact h.quiet rfl rfl rfl (by simp) (by simp)
    · next hflag =>
      have hnone : ∀ e ∈ x.sent, ¬ Starts e.2 := fun e he =>
        h.flag (Bool.not_eq_true _ ▸ hflag) e he (h.running s hphase e he)
      exact ⟨h.wrapped, h.flag, h.flagged, h.before, by simp,
        fun left hleft => .inr ⟨(Phase.answering.inj hleft).symm, hnone⟩⟩
  · exact h.quiet rfl rfl rfl (by simp) (by simp)

theorem tracks_answered {m : AsgiMessage} {left : List AsgiMessage} {result : Except Exn Unit}
    (hphase : x.phase = .answering (m :: left)) (h : Tracks x) : Tracks (answerStep m left result x) := by
  have hflag : x.started = false →
      ∀ e ∈ x.sent ++ [(Sender.middleware, m)], e.1 = .application → ¬ Starts e.2 := by
    intro hflag e he hby
    rcases List.mem_append.mp he with hold | hnew
    · exact h.flag hflag e hold hby
    · rw [List.mem_singleton.mp hnew] at hby
      cases hby
  have hflagged : x.started = true → ∃ e ∈ x.sent ++ [(Sender.middleware, m)], Starts e.2 := by
    intro hflag
    obtain ⟨e, he, hes⟩ := h.flagged hflag
    exact ⟨e, List.mem_append_left _ he, hes⟩
  have hbefore : (x.sent ++ [(Sender.middleware, m)]).Pairwise Follows := by
    refine List.pairwise_append.mpr ⟨h.before, List.pairwise_singleton _ _, ?_⟩
    intro e he e' he' _ hstarts
    rw [List.mem_singleton.mp he'] at hstarts
    rcases h.answering _ hphase with hnone | ⟨_, hnone⟩
    · exact absurd hstarts (hnone m List.mem_cons_self)
    · exact hnone e he
  have hrest : ∀ m' ∈ left, ¬ Starts m' := by
    intro m' hm'
    rcases h.answering _ hphase with hnone | ⟨hleft, _⟩
    · exact hnone m' (List.mem_cons_of_mem _ hm')
    · -- the second message of the response is its body
      have hbody : left = tooLarge.tail := congrArg List.tail hleft
      rw [hbody] at hm'
      rw [List.mem_singleton.mp hm']
      simp [Starts, startType]
  cases result with
  | ok _ =>
    refine ⟨h.wrapped, hflag, hflagged, hbefore, by simp [answerStep], ?_⟩
    intro left' hleft'
    rw [← Phase.answering.inj hleft']
    exact .inl hrest
  | error exn => exact ⟨h.wrapped, hflag, hflagged, hbefore, by simp [answerStep], by simp [answerStep]⟩

theorem tracks_step (h : Tracks x) (hstep : step app maxBytes x e = some y) : Tracks y := by
  unfold step at hstep
  split at hstep
  · next hphase =>
    split at hstep
    · obtain rfl := Option.some.inj hstep
      exact tracks_received hphase h
    · obtain rfl := Option.some.inj hstep
      exact tracks_sent hphase h
    · obtain rfl := Option.some.inj hstep
      exact h.quiet rfl rfl rfl (by simp) (by simp)
    · obtain rfl := Option.some.inj hstep
      exact tracks_raised hphase h
    · cases hstep
  · next hphase =>
    obtain rfl := Option.some.inj hstep
    exact tracks_answered hphase h
  · obtain rfl := Option.some.inj hstep
    exact h.quiet rfl rfl rfl (by simp) (by simp)
  · cases hstep

theorem refuses_step (h : Refuses x) (hstep : step app maxBytes x e = some y) : Refuses y := by
  unfold step at hstep
  split at hstep
  · next hphase => exact absurd hphase (h.idle _)
  · next m left result hphase =>
    obtain rfl := Option.some.inj hstep
    have hleft : (x.sent ++ [(Sender.middleware, m)]) ++ left.map (Prod.mk Sender.middleware) =
        tooLarge.map (Prod.mk Sender.middleware) := by
      rw [List.append_assoc]
      exact h.left _ hphase
    have hsent : x.sent ++ [(Sender.middleware, m)] <+: tooLarge.map (Prod.mk Sender.middleware) := ⟨_, hleft⟩
    cases result with
    | ok _ =>
      refine ⟨h.handed, by simp [answerStep], hsent, ?_⟩
      intro left' hleft'
      rw [← Phase.answering.inj hleft']
      exact hleft
    | error exn => exact ⟨h.handed, by simp [answerStep], hsent, by simp [answerStep]⟩
  · obtain rfl := Option.some.inj hstep
    exact ⟨h.handed, by simp, h.sent, by simp⟩
  · cases hstep

/-! ## Calls -/

theorem counts_run {events : List Event} (hrun : Run (ofPartial (step app maxBytes)) x events y)
    (h : Counts maxBytes got x) : Counts maxBytes (got ++ delivered events) y := by
  induction hrun generalizing got with
  | nil s => rwa [show delivered [] = [] from rfl, List.append_nil]
  | @cons s t u e events hstep _ ih =>
    have hnext := ih (counts_step h hstep)
    rwa [List.append_assoc, ← delivered_cons] at hnext

theorem counts_call (hhttp : scope.type = "http") : Counts maxBytes [] (call app maxBytes scope) :=
  ⟨beq_iff_eq.mpr hhttp, rfl, Nat.zero_le _, Nat.le_refl _, fun _ => rfl⟩

theorem call_phase (hhttp : scope.type = "http") :
    (call app maxBytes scope).phase =
      if isRefused maxBytes scope then .answering tooLarge else .running app.start := by
  rw [call, beq_iff_eq.mpr hhttp, Bool.true_and]

theorem tracks_call (hhttp : scope.type = "http") : Tracks (call app maxBytes scope) := by
  refine ⟨beq_iff_eq.mpr hhttp, fun _ => by simp [call], by simp [call], .nil, fun _ _ => by simp [call], ?_⟩
  intro left hleft
  rw [call_phase hhttp] at hleft
  split at hleft
  · exact .inr ⟨(Phase.answering.inj hleft).symm, by simp [call]⟩
  · cases hleft

theorem refuses_call (hhttp : scope.type = "http") (h : isRefused maxBytes scope = true) :
    Refuses (call app maxBytes scope) := by
  have hphase : (call app maxBytes scope).phase = .answering tooLarge := by rw [call_phase hhttp, if_pos h]
  refine ⟨rfl, ?_, List.nil_prefix, ?_⟩
  · intro s hs
    rw [hphase] at hs
    cases hs
  · intro left hleft
    rw [hphase] at hleft
    rw [← Phase.answering.inj hleft]
    rfl

theorem mirrors_call (hhttp : scope.type = "http") (h : isRefused maxBytes scope = false) :
    Mirrors maxBytes [] (bare app) (call app maxBytes scope) := by
  refine ⟨rfl, counts_call hhttp, rfl, .inl ⟨app.start, rfl, ?_⟩⟩
  rw [call_phase hhttp, h]
  rfl

theorem step_receive {s : app.State} {resume : Except Exn AsgiMessage → app.State} {result : Except Exn AsgiMessage}
    (hphase : x.phase = .running s) (hcall : app.step s = .receive resume) :
    step app maxBytes x (.received result) = some (receiveStep maxBytes resume result x) := by
  simp only [step, hphase, hcall]

theorem step_send {s : app.State} {m : AsgiMessage} {resume : Except Exn Unit → app.State}
    {result : Except Exn Unit} (hphase : x.phase = .running s) (hcall : app.step s = .send m resume) :
    step app maxBytes x (.sent result) = some (sendStep m (resume result) x) := by
  simp only [step, hphase, hcall]

theorem step_returns {s : app.State} (hphase : x.phase = .running s) (hcall : app.step s = .returns) :
    step app maxBytes x .ended = some { x with phase := .ended (.ok ()) } := by
  simp only [step, hphase, hcall]

theorem step_raises {s : app.State} {exn : Exn} (hphase : x.phase = .running s) (hcall : app.step s = .raises exn) :
    step app maxBytes x .ended = some (raiseStep exn x) := by
  simp only [step, hphase, hcall]

/-- What an application can do next, and what the server answers. -/
theorem step_cases {s : app.State} (hphase : x.phase = .running s) (hstep : step app maxBytes x e = some y) :
    (∃ resume result, app.step s = .receive resume ∧ e = .received result ∧
      y = receiveStep maxBytes resume result x) ∨
    (∃ m resume result, app.step s = .send m resume ∧ e = .sent result ∧ y = sendStep m (resume result) x) ∨
    (app.step s = .returns ∧ e = .ended ∧ y = { x with phase := .ended (.ok ()) }) ∨
    ∃ exn, app.step s = .raises exn ∧ e = .ended ∧ y = raiseStep exn x := by
  simp only [step, hphase] at hstep
  split at hstep
  · next resume result hcall => exact .inl ⟨resume, result, hcall, rfl, (Option.some.inj hstep).symm⟩
  · next m resume result hcall => exact .inr (.inl ⟨m, resume, result, hcall, rfl, (Option.some.inj hstep).symm⟩)
  · next hcall => exact .inr (.inr (.inl ⟨hcall, rfl, (Option.some.inj hstep).symm⟩))
  · next exn hcall => exact .inr (.inr (.inr ⟨exn, hcall, rfl, (Option.some.inj hstep).symm⟩))
  · cases hstep

theorem receiveStep_bare (maxBytes : ℕ) (resume : Except Exn AsgiMessage → app.State)
    (result : Except Exn AsgiMessage) (h : y.wrapped = false) :
    (receiveStep maxBytes resume result y).wrapped = false ∧
      (receiveStep maxBytes resume result y).sent = y.sent ∧
      (receiveStep maxBytes resume result y).phase = .running (resume result) := by
  cases result with
  | error exn => exact ⟨h, rfl, rfl⟩
  | ok m =>
    rw [receiveStep, if_neg (by simp [h])]
    exact ⟨h, rfl, rfl⟩

/-- Within the limit the application gets what the server delivers. -/
theorem receiveStep_within (resume : Except Exn AsgiMessage → app.State) {result : Except Exn AsgiMessage}
    (h : Counts maxBytes got x) (hwithin : bodyBytes (got ++ delivered [.received result]) ≤ maxBytes) :
    (receiveStep maxBytes resume result x).sent = x.sent ∧
      (receiveStep maxBytes resume result x).phase = .running (resume result) := by
  cases result with
  | error exn => exact ⟨rfl, rfl⟩
  | ok m =>
    have hle : x.seen + bodyBytes [m] ≤ maxBytes := by
      rw [h.seen, ← bodyBytes_append]
      exact hwithin
    rw [receiveStep_ok h.wrapped, countingReceive_le hle]
    exact ⟨rfl, rfl⟩

theorem raiseStep_bare {exn : Exn} (h : y.wrapped = false) :
    raiseStep exn y = { y with phase := .ended (.error exn) } := by
  rw [raiseStep, if_neg (by simp [h])]

theorem raiseStep_sent {exn : Exn} : (raiseStep exn x).sent = x.sent := by
  rw [raiseStep]
  split
  · split
    · rfl
    · rfl
  · rfl

/-- The middleware answers what the server answers the application by itself. -/
theorem mirrors_step {y' : Exchange app.State} (h : Mirrors maxBytes got y x)
    (hstep : step app maxBytes y e = some y') (hwithin : bodyBytes (got ++ delivered [e]) ≤ maxBytes) :
    ∃ x', step app maxBytes x e = some x' ∧ Mirrors maxBytes (got ++ delivered [e]) y' x' := by
  rcases h.phase with ⟨s, hy, hx⟩ | ⟨outcome, hy⟩
  · rcases step_cases hy hstep with ⟨resume, result, hcall, rfl, rfl⟩ | ⟨m, resume, result, hcall, rfl, rfl⟩ |
      ⟨hcall, rfl, rfl⟩ | ⟨exn, hcall, rfl, rfl⟩
    · have htaken : step app maxBytes x (.received result) = some (receiveStep maxBytes resume result x) :=
        step_receive hx hcall
      obtain ⟨hbare, hsent, hphase⟩ := receiveStep_bare maxBytes resume result h.bare
      obtain ⟨hsent', hphase'⟩ := receiveStep_within resume h.counts hwithin
      refine ⟨_, htaken, hbare, counts_step h.counts htaken, ?_, .inl ⟨_, hphase, hphase'⟩⟩
      rw [hsent', hsent, h.sent]
    · have htaken : step app maxBytes x (.sent result) = some (sendStep m (resume result) x) := step_send hx hcall
      refine ⟨_, htaken, h.bare, counts_step h.counts htaken, ?_, .inl ⟨_, rfl, rfl⟩⟩
      exact congrArg (· ++ [(Sender.application, m)]) h.sent
    · have htaken : step app maxBytes x .ended = some { x with phase := .ended (.ok ()) } := step_returns hx hcall
      exact ⟨_, htaken, h.bare, counts_step h.counts htaken, h.sent, .inr ⟨_, rfl⟩⟩
    · have htaken : step app maxBytes x .ended = some (raiseStep exn x) := step_raises hx hcall
      rw [raiseStep_bare h.bare]
      exact ⟨_, htaken, h.bare, counts_step h.counts htaken, raiseStep_sent.trans h.sent, .inr ⟨_, rfl⟩⟩
  · unfold step at hstep
    rw [hy] at hstep
    cases e <;> cases hstep

theorem mirrors_run {events : List Event} (hrun : Run (ofPartial (step app maxBytes)) y events z)
    (h : Mirrors maxBytes got y x) (hwithin : bodyBytes (got ++ delivered events) ≤ maxBytes) :
    ∃ x', Run (ofPartial (step app maxBytes)) x events x' ∧ Mirrors maxBytes (got ++ delivered events) z x' := by
  induction hrun generalizing got x with
  | nil s =>
    rw [show delivered [] = [] from rfl, List.append_nil]
    exact ⟨x, .nil x, h⟩
  | @cons s t u e events hstep _ ih =>
    rw [delivered_cons, ← List.append_assoc] at hwithin ⊢
    have hnow : bodyBytes (got ++ delivered [e]) ≤ maxBytes := by
      rw [bodyBytes_append] at hwithin
      omega
    obtain ⟨x', hx', hmirrors⟩ := mirrors_step h hstep hnow
    obtain ⟨x'', hrest, hend⟩ := ih hmirrors hwithin
    exact ⟨x'', .cons hx' hrest, hend⟩

/-- The error of the count reaches the middleware before any response. -/
theorem answers_of_raises {s : app.State} (h : Tracks x) (hphase : x.phase = .running s)
    (hcall : app.step s = .raises .bodyTooLarge) (hnone : ∀ m ∈ x.sent, ¬ Starts m.2) :
    Answers413 app maxBytes x := by
  have hflag : x.started = false := by
    by_contra hup
    obtain ⟨m, hm, hstarts⟩ := h.flagged (Bool.not_eq_false _ ▸ hup)
    exact hnone m hm hstarts
  have hraise : raiseStep .bodyTooLarge x = { x with phase := .answering tooLarge } := by
    rw [raiseStep, if_pos (by simp [h.wrapped]), hflag]
    rfl
  refine ⟨_, (step_raises hphase hcall).trans (congrArg some hraise), fun result => ?_⟩
  cases result with
  | ok _ => exact ⟨_, rfl, rfl⟩
  | error exn => exact ⟨_, rfl, rfl⟩

end kept

/-- No application is handed more than the limit, and the middleware starts no second response. A request that is
not refused by its headers goes on as without the middleware while its body is within the limit; a refused one
never reaches the application. -/
theorem bodyLimit_of_declared (app : Application) (maxBytes : ℕ) (scope : Scope) (hhttp : scope.type = "http") :
    (∀ events x, Run (ofPartial (step app maxBytes)) (call app maxBytes scope) events x →
      bodyBytes x.handed ≤ maxBytes ∧ x.sent.Pairwise Follows ∧
      (bodyBytes (delivered events) ≤ maxBytes → x.handed = delivered events) ∧
      ∀ s, x.phase = .running s → app.step s = .raises .bodyTooLarge → (∀ m ∈ x.sent, ¬ Starts m.2) →
        Answers413 app maxBytes x) ∧
    (isRefused maxBytes scope = false → ∀ events y, Run (ofPartial (step app maxBytes)) (bare app) events y →
      bodyBytes (delivered events) ≤ maxBytes →
      ∃ x, Run (ofPartial (step app maxBytes)) (call app maxBytes scope) events x ∧ x.handed = delivered events ∧
        x.sent = y.sent ∧ ∀ s, y.phase = .running s → x.phase = .running s) ∧
    (isRefused maxBytes scope = true → (call app maxBytes scope).phase = .answering tooLarge ∧
      ∀ events x, Run (ofPartial (step app maxBytes)) (call app maxBytes scope) events x →
        x.handed = [] ∧ x.sent <+: tooLarge.map (Prod.mk Sender.middleware)) := by
  refine ⟨fun events x hrun => ?_, fun haccepted events y hrun hwithin => ?_, fun hrefused => ⟨?_, ?_⟩⟩
  · have hcounts := counts_run hrun (counts_call hhttp)
    have htracks : Tracks x := hrun.invariant (fun _ _ _ => tracks_step) (tracks_call hhttp)
    refine ⟨hcounts.handed_le, htracks.before, fun hwithin => ?_, fun s => answers_of_raises htracks⟩
    exact hcounts.unchanged (hcounts.seen ▸ hwithin)
  · obtain ⟨x, hx, hmirrors⟩ := mirrors_run hrun (mirrors_call hhttp haccepted) hwithin
    refine ⟨x, hx, hmirrors.counts.unchanged (hmirrors.counts.seen ▸ hwithin), hmirrors.sent, fun s hs => ?_⟩
    rcases hmirrors.phase with ⟨s', hs', hx'⟩ | ⟨outcome, hended⟩
    · rw [hx', ← hs', hs]
    · rw [hs] at hended
      cases hended
  · rw [call_phase hhttp, if_pos hrefused]
  · intro events x hrun
    have hrefuses : Refuses x := hrun.invariant (fun _ _ _ => refuses_step) (refuses_call hhttp hrefused)
    exact ⟨hrefuses.handed, hrefuses.sent⟩

/-! ## A reader -/

/-- Where the sample application is. -/
inductive Reading
  | fresh
  | read (result : Except Exn AsgiMessage)
  | done

/-- It reads one message, and starts a response or lets the error through. -/
def readerStep : Reading → Call Reading
  | .fresh => .receive .read
  | .read (.error exn) => .raises exn
  | .read (.ok _) => .send ⟨startType, some 200, none⟩ fun _ => .done
  | .done => .returns

def reader : Application := ⟨Reading, .fresh, readerStep⟩

def bodyOf (bytes : List UInt8) : AsgiMessage := ⟨"http.request", none, some bytes⟩

/-- A body past the limit of four bytes is answered with a 413 by the middleware. -/
def cutOff : List Event := [.received (.ok (bodyOf [1, 2, 3, 4, 5])), .ended, .sent (.ok ()), .sent (.ok ()), .ended]

theorem cutOff_runs : (cutOff.foldlM (step reader 4) (call reader 4 ⟨"http", []⟩)).isSome = true := rfl

theorem bodyLimit_sample :
    Run (ofPartial (step reader 4)) (call reader 4 ⟨"http", []⟩) cutOff
      (after (step reader 4) cutOff (call reader 4 ⟨"http", []⟩)) ∧
    bodyBytes (after (step reader 4) cutOff (call reader 4 ⟨"http", []⟩)).handed ≤ 4 :=
  have hrun := Run.ofPartial_after cutOff_runs
  ⟨hrun, ((bodyLimit_of_declared reader 4 ⟨"http", []⟩ rfl).1 _ _ hrun).1⟩

/-- A body of three bytes, with a declared length of nine. -/
theorem not_passed_of_declared : ¬ ∀ (app : Application) (maxBytes : ℕ) (scope : Scope), scope.type = "http" →
    ∀ events y, Run (ofPartial (step app maxBytes)) (bare app) events y → bodyBytes (delivered events) ≤ maxBytes →
      ∃ x, Run (ofPartial (step app maxBytes)) (call app maxBytes scope) events x ∧ x.handed = delivered events := by
  intro hall
  obtain ⟨x, hx, -⟩ := hall reader 4 ⟨"http", [(contentLength, [57])]⟩ rfl [.received (.ok (bodyOf [1, 2, 3]))] _
    (.single rfl) (by decide)
  have hrefused : isRefused 4 ⟨"http", [(contentLength, [57])]⟩ = true := by
    rw [isRefused, List.reverse_singleton, List.lookup_cons, beq_self_eq_true]
    rfl
  have hphase : (call reader 4 ⟨"http", [(contentLength, [57])]⟩).phase = .answering tooLarge := by
    rw [call_phase rfl, if_pos hrefused]
  cases hx with
  | cons hstep _ =>
    simp [ofPartial, step, hphase] at hstep

end Kryptolog.Server.BodyLimit
