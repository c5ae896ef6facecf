import Mathlib.Data.List.Basic
import Mathlib.Tactic.Common

/-!
# The invocation session

An `InvocationSession` is the TCP handler of the connection over which one function is initialised
and run.  `Receive` reads a reply of the instance as a string of bytes and fulfils the session's
promises, either at once or in an event that it spawns.

`Receive` decides whether the request has failed by the status line, and what has been completed by
the text from the first brace on.  The two decisions do not know of each other: after a failure the
reply is still reported as a completed request.
-/

namespace Umm

/-! ## Strings of bytes -/

/-- `std::string`, as the bytes it holds. -/
abbrev Bytes := List UInt8

/-- The bytes of a text in the code. -/
def Bytes.ofText (text : String) : Bytes :=
  text.toList.map fun c => UInt8.ofNat c.toNat

namespace Bytes

/-- The ways a function of the standard library throws. -/
inductive StdException where
  /-- `std::out_of_range`. -/
  | outOfRange
deriving DecidableEq, Repr

/-- `find_first_of` one character; `none` is `npos`. -/
def findFirstOf (s : Bytes) (c : UInt8) : Option ℕ :=
  s.findIdx? (· == c)

/-- `substr(pos)`. -/
def substrFrom (s : Bytes) (pos : Option ℕ) : Except StdException Bytes :=
  match pos with
  | none => .error .outOfRange
  | some pos => if pos ≤ s.length then .ok (s.drop pos) else .error .outOfRange

/-- `substr(0, count)`. -/
def substrTo (s : Bytes) (count : Option ℕ) : Bytes :=
  match count with
  | none => s
  | some count => s.take count

/-- From a character that occurs, `substr` does not throw. -/
theorem substrFrom_of_mem {s : Bytes} {c : UInt8} (h : c ∈ s) :
    s.substrFrom (s.findFirstOf c) = .ok (s.dropWhile (· != c)) := by
  induction s with
  | nil => cases h
  | cons b s ih =>
    unfold findFirstOf substrFrom at ih ⊢
    rw [List.findIdx?_cons]
    by_cases hb : b = c
    · simp [hb]
    · have hs : c ∈ s := (List.mem_cons.mp h).resolve_left (Ne.symm hb)
      have ih := ih hs
      cases hfind : s.findIdx? (· == c) with
      | none =>
        rw [hfind] at ih
        cases ih
      | some pos =>
        rw [hfind] at ih
        simpa [hb, hfind] using ih

/-- From a character that does not occur, it throws. -/
theorem substrFrom_of_not_mem {s : Bytes} {c : UInt8} (h : c ∉ s) :
    s.substrFrom (s.findFirstOf c) = .error .outOfRange := by
  have hnone : s.findIdx? (· == c) = none := by
    rw [List.findIdx?_eq_none_iff]
    intro b hb
    simpa using fun heq : b = c => h (heq ▸ hb)
  rw [findFirstOf, hnone]
  rfl

end Bytes

/-! ## The session -/

/-- The event hooks: one promise each. -/
inductive Hook where
  /-- `when_aborted_`. -/
  | aborted
  /-- `when_closed_`. -/
  | closed
  /-- `when_connected_`. -/
  | connected
  /-- `when_initialized_`. -/
  | initialized
  /-- `when_finished_`. -/
  | finished
deriving DecidableEq, Repr

/-- `ExecStats`. -/
structure ExecStats where
  /-- `run_time`. -/
  runTime : ℕ
  /-- `init_time`. -/
  initTime : ℕ
  /-- `status`: whether the invocation has failed. -/
  status : Bool
deriving DecidableEq, Repr

/-- `InvocationSession`.  The events are given by the promise they fulfil. -/
structure InvocationSession where
  /-- `is_connected_`. -/
  isConnected : Bool
  /-- `is_initialized_`. -/
  isInitialized : Bool
  /-- `istats_.exec`. -/
  exec : ExecStats
  /-- `command_clock_`, in nanoseconds. -/
  commandClock : ℕ
  /-- The events the session has spawned that have not been performed. -/
  events : List Hook
  /-- Log of the calls of `SetValue`. -/
  setValues : List Hook
  /-- Log of the calls of `Finish`, with the responses. -/
  finishCalls : List Bytes
  /-- Log of the calls of `Pcb().Disconnect()`. -/
  disconnects : ℕ
deriving DecidableEq, Repr

namespace InvocationSession

/-- The status line of a request that has succeeded. -/
def okStatus : Bytes :=
  Bytes.ofText "HTTP/1.1 200 OK"

/-- The response to a completed `/init`. -/
def okResponse : Bytes :=
  Bytes.ofText "\x7b\"OK\":true\x7d"

/-- `{`. -/
def openBrace : UInt8 := 0x7b

/-- `\r`. -/
def carriageReturn : UInt8 := 0x0d

/-- A new session. -/
def init : InvocationSession where
  isConnected := false
  isInitialized := false
  exec := ⟨0, 0, false⟩
  commandClock := 0
  events := []
  setValues := []
  finishCalls := []
  disconnects := 0

/-- `SetValue` of a promise. -/
def setValue (s : InvocationSession) (hook : Hook) : InvocationSession :=
  { s with setValues := hook :: s.setValues }

/-- `SpawnLocal` of an event that fulfils a promise. -/
def spawnLocal (s : InvocationSession) (hook : Hook) : InvocationSession :=
  { s with events := s.events ++ [hook] }

/-- `Finish`. -/
def finish (s : InvocationSession) (response : Bytes) : InvocationSession :=
  { s with finishCalls := response :: s.finishCalls }

/-- `Connected`. -/
def connected (s : InvocationSession) : InvocationSession :=
  { s with isConnected := true }.spawnLocal .connected

/-- `Close`. -/
def close (s : InvocationSession) : InvocationSession :=
  { s with isConnected := false, disconnects := s.disconnects + 1 }.spawnLocal .closed

/-- `Abort`. -/
def abort (s : InvocationSession) : InvocationSession :=
  { s with isConnected := false }.spawnLocal .aborted

/-- An event that the session spawned: it fulfils its promise. -/
def performEvent (s : InvocationSession) (hook : Hook) : InvocationSession :=
  match hook with
  | .initialized => { s with isInitialized := true }.setValue .initialized
  | hook => s.setValue hook

/-- `http_status`: the text before the first carriage return. -/
def httpStatus (reply : Bytes) : Bytes :=
  reply.substrTo (reply.findFirstOf carriageReturn)

/-- `response`: the text from the first brace on. -/
def responseOf (reply : Bytes) : Except Bytes.StdException Bytes :=
  reply.substrFrom (reply.findFirstOf openBrace)

/-- What `Receive` does about a failed request. -/
def receiveFailed (s : InvocationSession) (response : Bytes) : InvocationSession :=
  let s := { s with exec := { s.exec with status := true } }.setValue .aborted
  { s with disconnects := s.disconnects + 1 }.finish response

/-- What `Receive` does about a completed `/init`. -/
def receiveInit (s : InvocationSession) (responseTime : ℕ) : InvocationSession :=
  { s with exec := { s.exec with initTime := responseTime } }.spawnLocal .initialized

/-- What `Receive` does about a completed `/run`. -/
def receiveRun (s : InvocationSession) (responseTime : ℕ) (response : Bytes) : InvocationSession :=
  { s.setValue .finished with
    exec := { s.exec with runTime := responseTime, status := false } }.finish response

/-- What `Receive` does about the request that a reply completes: an `/init`, or else a `/run`. -/
def receiveCompleted (s : InvocationSession) (responseTime : ℕ) (response : Bytes) :
    InvocationSession :=
  if response = okResponse ∧ !s.isInitialized then s.receiveInit responseTime
  else s.receiveRun responseTime response

/-- `Receive` of a reply that is not chained, when the clock reads `now`. -/
def receive (s : InvocationSession) (now : ℕ) (reply : Bytes) :
    Except Bytes.StdException InvocationSession := do
  let responseTime := (now - s.commandClock) / 1000000
  let response ← responseOf reply
  let s := if httpStatus reply ≠ okStatus then s.receiveFailed response else s
  .ok (s.receiveCompleted responseTime response)

/-- The reply is that to a failed request. -/
def fails (reply : Bytes) : Bool :=
  httpStatus reply != okStatus

/-- The reply completes the initialisation of the session. -/
def completesInit (s : InvocationSession) (reply : Bytes) : Bool :=
  decide (responseOf reply = .ok okResponse) && !s.isInitialized

section Receive

variable {s t : InvocationSession} {now : ℕ} {reply response : Bytes}

theorem fails_iff : fails reply = true ↔ httpStatus reply ≠ okStatus := by
  simp [fails]

/-- A reply without a brace makes `Receive` throw. -/
theorem receive_of_no_brace (h : openBrace ∉ reply) :
    s.receive now reply = .error .outOfRange := by
  rw [receive, responseOf, Bytes.substrFrom_of_not_mem h]
  rfl

theorem receive_of_response (h : responseOf reply = .ok response) : s.receive now reply =
    .ok ((if httpStatus reply ≠ okStatus then s.receiveFailed response else s).receiveCompleted
      ((now - s.commandClock) / 1000000) response) := by
  rw [receive, h]
  rfl

/-- A reply with a brace does not make it throw. -/
theorem receive_of_brace (h : openBrace ∈ reply) : ∃ t, s.receive now reply = .ok t :=
  ⟨_, receive_of_response (Bytes.substrFrom_of_mem h)⟩

/-- What the completion of a request fulfils, and the event it spawns. -/
theorem receiveCompleted_log (s : InvocationSession) (responseTime : ℕ) (response : Bytes) :
    let init := decide (response = okResponse) && !s.isInitialized
    (s.receiveCompleted responseTime response).setValues =
      (if init then [] else [.finished]) ++ s.setValues ∧
    (s.receiveCompleted responseTime response).events =
      s.events ++ (if init then [.initialized] else []) ∧
    (s.receiveCompleted responseTime response).isInitialized = s.isInitialized := by
  intro init
  unfold receiveCompleted
  by_cases h : response = okResponse ∧ !s.isInitialized
  · have hinit : init = true := by simpa [init] using h
    rw [if_pos h, hinit]
    exact ⟨rfl, rfl, rfl⟩
  · have hinit : init = false := by simpa [init] using h
    rw [if_neg h, hinit]
    exact ⟨rfl, (List.append_nil _).symm, rfl⟩

/-- What `Receive` fulfils, and the event it spawns: whether the request has failed and what it has
completed do not depend on each other. -/
theorem receive_log (h : s.receive now reply = .ok t) :
    t.setValues = (if s.completesInit reply then [] else [.finished]) ++
      ((if fails reply then [.aborted] else []) ++ s.setValues) ∧
    t.events = s.events ++ (if s.completesInit reply then [.initialized] else []) ∧
    t.isInitialized = s.isInitialized := by
  cases hresponse : responseOf reply with
  | error e =>
    rw [receive, hresponse] at h
    cases h
  | ok response =>
    have hinit : (decide (response = okResponse) && !s.isInitialized) = s.completesInit reply := by
      simp [completesInit, hresponse]
    rw [receive_of_response hresponse] at h
    obtain rfl := Except.ok.inj h
    rw [← hinit]
    by_cases hfails : httpStatus reply ≠ okStatus
    · rw [if_pos hfails, fails_iff.mpr hfails]
      exact receiveCompleted_log (s.receiveFailed response) _ response
    · have hok : fails reply = false := by simpa using fails_iff.not.mpr hfails
      rw [if_neg hfails, hok]
      exact receiveCompleted_log s _ response

end Receive

/-! ## Failed requests -/

/-- `Receive` fulfils the promise, at once or in an event that it spawns. -/
def Fulfils (hook : Hook) (s t : InvocationSession) : Prop :=
  t.setValues.count hook ≠ s.setValues.count hook ∨ t.events.count hook ≠ s.events.count hook

/-- `Receive` does not throw, and reports a failed request as failed, once. -/
def ReportsFailure (s : InvocationSession) (now : ℕ) (reply : Bytes) : Prop :=
  ∃ t, s.receive now reply = .ok t ∧ (httpStatus reply ≠ okStatus →
    t.exec.status = true ∧ ¬ Fulfils .finished s t ∧ ¬ Fulfils .initialized s t ∧
      t.finishCalls.length = s.finishCalls.length + 1)

/-- Whether or not the request has failed, `Receive` fulfils the promise of a completed one. -/
theorem fulfils_of_receive {s t : InvocationSession} {now : ℕ} {reply : Bytes}
    (h : s.receive now reply = .ok t) : Fulfils .finished s t ∨ Fulfils .initialized s t := by
  obtain ⟨hset, hevents, -⟩ := receive_log h
  cases hinit : s.completesInit reply with
  | true =>
    refine Or.inr (Or.inr ?_)
    simp [hevents, hinit]
  | false =>
    refine Or.inl (Or.inl ?_)
    have hfailed : (if fails reply then [Hook.aborted] else []).count .finished = 0 := by
      split_ifs
      · rfl
      · rfl
    simp [hset, hinit, List.count_append, hfailed]

/-- Whatever the session and the reply: `Receive` does not throw, and reports a failed request as
failed, exactly when the reply has a brace and the request has not failed. -/
theorem reportsFailure_iff (s : InvocationSession) (now : ℕ) (reply : Bytes) :
    s.ReportsFailure now reply ↔ openBrace ∈ reply ∧ httpStatus reply = okStatus := by
  constructor
  · rintro ⟨t, ht, hreports⟩
    constructor
    · by_contra hbrace
      rw [receive_of_no_brace hbrace] at ht
      cases ht
    · by_contra hstatus
      obtain ⟨-, hfinished, hinitialized, -⟩ := hreports hstatus
      exact (fulfils_of_receive ht).elim hfinished hinitialized
  · rintro ⟨hbrace, hstatus⟩
    obtain ⟨t, ht⟩ := receive_of_brace (s := s) hbrace
    exact ⟨t, ht, fun hfailed => absurd hstatus hfailed⟩

/-- A reply to a failed run. -/
def badGateway : Bytes :=
  Bytes.ofText "HTTP/1.1 502 Bad Gateway\r\n\r\n\x7b\"error\":\"x\"\x7d"

/-- It is reported as a success: the status is 0, `when_finished_` is fulfilled, and `Finish` has
been called twice. -/
theorem not_reportsFailure_badGateway :
    (init.receive 0 badGateway).toOption.map (fun t =>
      (t.exec.status, t.setValues, t.finishCalls.length)) =
        some (false, [.finished, .aborted], 2) ∧
    ¬ init.ReportsFailure 0 badGateway := by
  have hreceive : (init.receive 0 badGateway).toOption.map (fun t =>
      (t.exec.status, t.setValues, t.finishCalls.length)) =
        some (false, [.finished, .aborted], 2) := by decide
  refine ⟨hreceive, ?_⟩
  rintro ⟨t, ht, hreports⟩
  rw [ht] at hreceive
  simp only [Except.toOption, Option.map_some, Option.some.injEq, Prod.mk.injEq] at hreceive
  have hfailed := (hreports (by decide)).1
  rw [hreceive.1] at hfailed
  cases hfailed

end InvocationSession

end Umm
