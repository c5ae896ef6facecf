import Mathlib.Data.List.Perm.Basic
import Umm.Foundations.Outcome
import Umm.Foundations.Run
import Umm.Session.InvocationSession

/-!
# The promises of a session

The machine of one session: TCP calls the handlers, in the order in which a connection lives, and the
event loop performs the events the session has spawned, in any order.

`AssignedOnce` says that no promise has been fulfilled twice.  It holds while the instance sends one
failing reply at most, and none on a connection that is aborted too, completes one run at most, and
does not answer `/init` again before the event of the first answer has been performed.
-/

namespace Umm

open Foundations

/-- What can happen to a session. -/
inductive SessionStep where
  /-- TCP calls `Connected`. -/
  | connected
  /-- TCP calls `Receive`. -/
  | receive (now : ℕ) (reply : Bytes)
  /-- TCP calls `Close`. -/
  | close
  /-- TCP calls `Abort`. -/
  | abort
  /-- The event loop performs the pending event at index `i`. -/
  | dispatch (i : ℕ)
deriving DecidableEq, Repr

/-- A session with the history of its connection. -/
structure Connection where
  /-- The session. -/
  session : InvocationSession
  /-- Log: `Connected` has been called. -/
  connected : Bool
  /-- Log: `Receive` has been called. -/
  received : Bool
  /-- Log: `Close` has been called. -/
  closed : Bool
  /-- Log: `Abort` has been called. -/
  aborted : Bool
  /-- Log: the number of replies to failed requests. -/
  failures : ℕ
  /-- Log: the number of replies taken for the completion of a run. -/
  runs : ℕ

namespace Connection

open InvocationSession (fails)

/-- A new session. -/
def init : Connection where
  session := InvocationSession.init
  connected := false
  received := false
  closed := false
  aborted := false
  failures := 0
  runs := 0

/-- The order of the callbacks: `Connected` once at most, then replies, then `Close` and `Abort` once
each at most. -/
def enabled (c : Connection) : SessionStep → Bool
  | .connected => !c.connected && !c.received && !c.closed && !c.aborted
  | .receive _ _ => !c.closed && !c.aborted
  | .close => !c.closed
  | .abort => !c.aborted
  | .dispatch i => decide (i < c.session.events.length)

/-- Perform the pending event at index `i`. -/
def dispatch (s : InvocationSession) (i : ℕ) : InvocationSession :=
  match s.events[i]? with
  | none => s
  | some hook => { s with events := s.events.eraseIdx i }.performEvent hook

/-- What a step does. -/
def exec (c : Connection) : SessionStep → Except Bytes.StdException Connection
  | .connected => .ok { c with session := c.session.connected, connected := true }
  | .receive now reply => do
    let session ← c.session.receive now reply
    .ok { c with
      session
      received := true
      failures := if fails reply then c.failures + 1 else c.failures
      runs := if c.session.completesInit reply then c.runs else c.runs + 1 }
  | .close => .ok { c with session := c.session.close, closed := true }
  | .abort => .ok { c with session := c.session.abort, aborted := true }
  | .dispatch i => .ok { c with session := dispatch c.session i }

/-- The machine: a reply that makes `Receive` throw is not received. -/
def step (c : Connection) (a : SessionStep) : Option Connection :=
  if c.enabled a then (c.exec a).toOption else none

/-- No promise has been fulfilled twice. -/
def AssignedOnce (c : Connection) : Prop :=
  ∀ hook, c.session.setValues.count hook ≤ 1

/-- How often a promise has been fulfilled, or will be by an event. -/
def assignments (c : Connection) (hook : Hook) : ℕ :=
  c.session.setValues.count hook + c.session.events.count hook

/-- No promise has been fulfilled twice, or will be by an event. -/
def ScheduledOnce (c : Connection) : Prop :=
  ∀ hook, c.assignments hook ≤ 1

/-- The instance behaves: it sends one failing reply at most, and none if the connection is aborted;
it completes one run at most; and it answers `/init` only when no answer is being dealt with. -/
def Behaves (c : Connection) : SessionStep → Prop
  | .receive _ reply => (fails reply = true → c.failures = 0) ∧
      if c.session.completesInit reply then .initialized ∉ c.session.events else c.runs = 0
  | .abort => c.failures = 0
  | _ => True

instance decidableBehaves : ∀ c a, Decidable (Behaves c a)
  | c, .receive _ reply => inferInstanceAs (Decidable ((fails reply = true → c.failures = 0) ∧
      if c.session.completesInit reply then .initialized ∉ c.session.events else c.runs = 0))
  | c, .abort => inferInstanceAs (Decidable (c.failures = 0))
  | _, .connected | _, .close | _, .dispatch _ => isTrue trivial

/-- The promises a step fulfils, or has fulfilled by an event that it spawns. -/
def assigns (c : Connection) : SessionStep → List Hook
  | .connected => [.connected]
  | .receive _ reply => (if c.session.completesInit reply then [.initialized] else [.finished]) ++
      if fails reply then [.aborted] else []
  | .close => [.closed]
  | .abort => [.aborted]
  | .dispatch _ => []

section Count

variable (c : Connection) (now : ℕ) (reply : Bytes)

theorem count_aborted_assigns :
    (c.assigns (.receive now reply)).count .aborted = if fails reply then 1 else 0 := by
  cases hinit : c.session.completesInit reply <;> cases hfails : fails reply <;>
    simp [assigns, hinit, hfails]

theorem count_closed_assigns : (c.assigns (.receive now reply)).count .closed = 0 := by
  cases hinit : c.session.completesInit reply <;> cases hfails : fails reply <;>
    simp [assigns, hinit, hfails]

theorem count_connected_assigns : (c.assigns (.receive now reply)).count .connected = 0 := by
  cases hinit : c.session.completesInit reply <;> cases hfails : fails reply <;>
    simp [assigns, hinit, hfails]

theorem count_finished_assigns : (c.assigns (.receive now reply)).count .finished =
    if c.session.completesInit reply then 0 else 1 := by
  cases hinit : c.session.completesInit reply <;> cases hfails : fails reply <;>
    simp [assigns, hinit, hfails]

theorem count_initialized_assigns : (c.assigns (.receive now reply)).count .initialized =
    if c.session.completesInit reply then 1 else 0 := by
  cases hinit : c.session.completesInit reply <;> cases hfails : fails reply <;>
    simp [assigns, hinit, hfails]

end Count

/-- The invariant: how often each promise is assigned. -/
structure Assigned (c : Connection) : Prop where
  /-- By `Abort` and by failing replies. -/
  aborted : c.assignments .aborted = c.failures + c.aborted.toNat
  /-- By `Close`. -/
  closed : c.assignments .closed = c.closed.toNat
  /-- By `Connected`. -/
  connected : c.assignments .connected = c.connected.toNat
  /-- By replies that complete a run. -/
  finished : c.assignments .finished = c.runs
  /-- Before the session is initialised, only by events that are pending. -/
  initialized : c.session.isInitialized = false → c.session.setValues.count .initialized = 0

theorem assigned_init : Assigned init where
  aborted := rfl
  closed := rfl
  connected := rfl
  finished := rfl
  initialized := fun _ => rfl

section Step

variable {c c' : Connection} {now : ℕ} {reply : Bytes} {i : ℕ} {a : SessionStep}

theorem step_eq_some : c.step a = some c' ↔ c.enabled a = true ∧ c.exec a = .ok c' :=
  guarded_eq_some

/-- A received reply is what `Receive` makes of it. -/
theorem exec_receive_eq_ok (h : c.exec (.receive now reply) = .ok c') :
    ∃ session, c.session.receive now reply = .ok session ∧ c' = { c with
      session
      received := true
      failures := if fails reply then c.failures + 1 else c.failures
      runs := if c.session.completesInit reply then c.runs else c.runs + 1 } := by
  simp only [exec] at h
  cases hreceive : c.session.receive now reply with
  | error e =>
    rw [hreceive] at h
    cases h
  | ok session =>
    rw [hreceive] at h
    exact ⟨session, rfl, (Except.ok.inj h).symm⟩

/-- Performing an event fulfils its promise. -/
theorem log_performEvent (s : InvocationSession) (hook : Hook) :
    (s.performEvent hook).setValues = hook :: s.setValues ∧
      (s.performEvent hook).events = s.events := by
  cases hook <;> exact ⟨rfl, rfl⟩

/-- Performing an event moves an assignment from the pending ones to those made. -/
theorem assignments_dispatch (hi : i < c.session.events.length) (hook : Hook) :
    ({ c with session := dispatch c.session i } : Connection).assignments hook =
      c.assignments hook := by
  have hget : c.session.events[i]? = some c.session.events[i] := List.getElem?_eq_getElem hi
  have hperm := (List.getElem_cons_eraseIdx_perm hi).count_eq hook
  simp only [assignments, dispatch, hget]
  rw [(log_performEvent _ _).1, (log_performEvent _ _).2, ← hperm, List.count_cons, List.count_cons,
    Nat.add_assoc, Nat.add_comm (List.count hook (c.session.events.eraseIdx i))]

/-- What a step adds to the assignments. -/
theorem assignments_step (hstep : c.step a = some c') (hook : Hook) :
    c'.assignments hook = c.assignments hook + (c.assigns a).count hook := by
  obtain ⟨henabled, hexec⟩ := step_eq_some.mp hstep
  have hspawn : ∀ (s : InvocationSession) (hook' : Hook), s.setValues = c.session.setValues →
      s.events = c.session.events ++ [hook'] →
      s.setValues.count hook + s.events.count hook = c.assignments hook + [hook'].count hook := by
    intro s hook' hset hevents
    rw [hset, hevents, List.count_append, assignments, Nat.add_assoc]
  cases a with
  | connected =>
    obtain rfl := Except.ok.inj hexec
    exact hspawn _ _ rfl rfl
  | close =>
    obtain rfl := Except.ok.inj hexec
    exact hspawn _ _ rfl rfl
  | abort =>
    obtain rfl := Except.ok.inj hexec
    exact hspawn _ _ rfl rfl
  | dispatch i =>
    obtain rfl := Except.ok.inj hexec
    exact assignments_dispatch (of_decide_eq_true henabled) hook
  | receive now reply =>
    obtain ⟨session, hreceive, rfl⟩ := exec_receive_eq_ok hexec
    obtain ⟨hset, hevents, -⟩ := InvocationSession.receive_log hreceive
    simp only [assignments, assigns, hset, hevents, List.count_append]
    cases c.session.completesInit reply <;> simp <;> omega

/-- The assignments are counted in every run. -/
theorem Assigned.step (h : Assigned c) (hstep : c.step a = some c') : Assigned c' := by
  have hadd := assignments_step hstep
  obtain ⟨henabled, hexec⟩ := step_eq_some.mp hstep
  obtain ⟨haborted, hclosed, hconnected, hfinished, hinitialized⟩ := h
  cases a with
  | connected =>
    obtain rfl := Except.ok.inj hexec
    have hfirst : c.connected = false := by
      simp only [enabled, Bool.and_eq_true, Bool.not_eq_true'] at henabled
      exact henabled.1.1.1
    refine ⟨(hadd _).trans haborted, (hadd _).trans hclosed, (hadd _).trans ?_,
      (hadd _).trans hfinished, hinitialized⟩
    rw [hconnected, hfirst]
    rfl
  | close =>
    obtain rfl := Except.ok.inj hexec
    have hfirst : c.closed = false := by simpa [enabled] using henabled
    refine ⟨(hadd _).trans haborted, (hadd _).trans ?_, (hadd _).trans hconnected,
      (hadd _).trans hfinished, hinitialized⟩
    rw [hclosed, hfirst]
    rfl
  | abort =>
    obtain rfl := Except.ok.inj hexec
    have hfirst : c.aborted = false := by simpa [enabled] using henabled
    refine ⟨(hadd _).trans ?_, (hadd _).trans hclosed, (hadd _).trans hconnected,
      (hadd _).trans hfinished, hinitialized⟩
    rw [haborted, hfirst]
    rfl
  | dispatch i =>
    obtain rfl := Except.ok.inj hexec
    refine ⟨(hadd _).trans haborted, (hadd _).trans hclosed, (hadd _).trans hconnected,
      (hadd _).trans hfinished, fun hnot => ?_⟩
    have hi : i < c.session.events.length := of_decide_eq_true henabled
    have hget := List.getElem?_eq_getElem hi
    simp only [dispatch, hget] at hnot ⊢
    -- the session is still not initialised, so that another event has been performed
    cases hhook : c.session.events[i] with
    | initialized =>
      rw [hhook] at hnot
      cases hnot
    | _ =>
      rw [hhook] at hnot
      exact hinitialized hnot
  | receive now reply =>
    obtain ⟨session, hreceive, rfl⟩ := exec_receive_eq_ok hexec
    obtain ⟨hset, -, hflag⟩ := InvocationSession.receive_log hreceive
    refine ⟨(hadd _).trans ?_, (hadd _).trans ?_, (hadd _).trans ?_, (hadd _).trans ?_,
      fun hnot => ?_⟩
    · rw [haborted, count_aborted_assigns]
      by_cases hfails : fails reply = true
      · simp only [if_pos hfails]
        omega
      · simp only [if_neg hfails]
        omega
    · rw [hclosed, count_closed_assigns, Nat.add_zero]
    · rw [hconnected, count_connected_assigns, Nat.add_zero]
    · rw [hfinished, count_finished_assigns]
      by_cases hinit : c.session.completesInit reply = true
      · simp only [if_pos hinit, Nat.add_zero]
      · simp only [if_neg hinit]
    · have hzero := hinitialized (hflag.symm.trans hnot)
      simp only [hset, List.count_append, hzero]
      by_cases hinit : c.session.completesInit reply = true
      · by_cases hfails : fails reply = true
        · simp [hinit, hfails]
        · simp [hinit, hfails]
      · by_cases hfails : fails reply = true
        · simp [hinit, hfails]
        · simp [hinit, hfails]

/-- Which promises can be assigned twice. -/
theorem Assigned.scheduledOnce_iff (h : Assigned c) : ScheduledOnce c ↔
    c.failures + c.aborted.toNat ≤ 1 ∧ c.runs ≤ 1 ∧ c.assignments .initialized ≤ 1 := by
  constructor
  · intro honce
    exact ⟨h.aborted ▸ honce .aborted, h.finished ▸ honce .finished, honce .initialized⟩
  · rintro ⟨haborted, hfinished, hinitialized⟩ hook
    cases hook with
    | aborted => exact h.aborted ▸ haborted
    | closed => exact h.closed ▸ Bool.toNat_le _
    | connected => exact h.connected ▸ Bool.toNat_le _
    | initialized => exact hinitialized
    | finished => exact h.finished ▸ hfinished

/-- A step keeps the promises assigned once exactly when the instance behaves. -/
theorem Assigned.scheduledOnce_step_iff (h : Assigned c) (honce : ScheduledOnce c)
    (hstep : c.step a = some c') : ScheduledOnce c' ↔ Behaves c a := by
  have hinit := assignments_step hstep .initialized
  obtain ⟨haborted, hfinished, hinitialized⟩ := h.scheduledOnce_iff.mp honce
  rw [(h.step hstep).scheduledOnce_iff, hinit]
  obtain ⟨henabled, hexec⟩ := step_eq_some.mp hstep
  cases a with
  | connected =>
    obtain rfl := Except.ok.inj hexec
    exact ⟨fun _ => trivial, fun _ => ⟨haborted, hfinished, hinitialized⟩⟩
  | close =>
    obtain rfl := Except.ok.inj hexec
    exact ⟨fun _ => trivial, fun _ => ⟨haborted, hfinished, hinitialized⟩⟩
  | dispatch i =>
    obtain rfl := Except.ok.inj hexec
    exact ⟨fun _ => trivial, fun _ => ⟨haborted, hfinished, hinitialized⟩⟩
  | abort =>
    obtain rfl := Except.ok.inj hexec
    refine ⟨fun hcount => ?_, fun hbehaves => ⟨?_, hfinished, hinitialized⟩⟩
    · exact Nat.le_zero.mp (Nat.le_of_succ_le_succ hcount.1)
    · exact Nat.le_of_eq (congrArg (· + 1) hbehaves)
  | receive now reply =>
    obtain ⟨session, hreceive, rfl⟩ := exec_receive_eq_ok hexec
    have hopen : c.aborted = false := by
      simp only [enabled, Bool.and_eq_true, Bool.not_eq_true'] at henabled
      exact henabled.2
    simp only [Behaves, count_initialized_assigns, hopen, Bool.toNat_false]
    refine and_congr ?_ ?_
    · by_cases hfails : fails reply = true
      · simp only [hfails, if_true, forall_const]
        omega
      · refine ⟨fun _ h => absurd h hfails, fun _ => ?_⟩
        rw [if_neg hfails]
        omega
    · by_cases hinit : c.session.completesInit reply = true
      · have hnone : c.session.setValues.count .initialized = 0 := by
          refine h.initialized ?_
          simp only [InvocationSession.completesInit, Bool.and_eq_true, Bool.not_eq_true'] at hinit
          exact hinit.2
        rw [if_pos hinit, if_pos hinit, if_pos hinit, assignments, hnone, ← List.count_eq_zero]
        omega
      · rw [if_neg hinit, if_neg hinit, if_neg hinit]
        omega

end Step

/-! ## Runs -/

theorem ScheduledOnce.assignedOnce {c : Connection} (h : ScheduledOnce c) : AssignedOnce c :=
  fun hook => Nat.le_trans (Nat.le_add_right _ _) (h hook)

/-- While the instance behaves, no promise is fulfilled twice; and when no promise is fulfilled twice
or will be by a pending event, the instance has behaved. -/
theorem assignedOnce_run (steps : List SessionStep) :
    (AllSteps step Behaves init steps → AllStates step AssignedOnce init steps) ∧
    ∀ c, run step init steps = some c → AllStates step ScheduledOnce init steps →
      AllSteps step Behaves init steps := by
  have hinit : Assigned init ∧ ScheduledOnce init :=
    ⟨assigned_init, assigned_init.scheduledOnce_iff.mpr ⟨by decide, by decide, by decide⟩⟩
  have hkept : ∀ c a c', Behaves c a → Assigned c ∧ ScheduledOnce c → c.step a = some c' →
      Assigned c' ∧ ScheduledOnce c' :=
    fun c a c' hbehaves hc hstep =>
      ⟨hc.1.step hstep, (hc.1.scheduledOnce_step_iff hc.2 hstep).mpr hbehaves⟩
  refine ⟨fun hbehaves => ?_, fun c hrun honce => ?_⟩
  · exact allStates_of_invariant (fun c hc => hc.2.assignedOnce) hkept hinit hbehaves
  · refine allSteps_of_allStates (D := fun c a => ∃ c', c.step a = some c')
      (fun c a c' _ => hkept c a c') (fun c a haccepted hc hnot => ?_) hinit
      (allSteps_of_run hrun) honce
    obtain ⟨c', hstep⟩ := haccepted
    exact ⟨c', hstep, (hc.1.scheduledOnce_step_iff hc.2 hstep).not.mpr hnot⟩

/-- A reply to a completed `/init`. -/
def initReply : Bytes :=
  Bytes.ofText "HTTP/1.1 200 OK\r\n\r\n\x7b\"OK\":true\x7d"

/-- A reply to a completed `/run`. -/
def runReply : Bytes :=
  Bytes.ofText "HTTP/1.1 200 OK\r\n\r\n\x7b\"spins\":1\x7d"

/-- The session of an instance that is initialised, completes a run, and closes the connection. -/
theorem assignedOnce_run_init : AllStates step AssignedOnce init [.connected, .dispatch 0,
    .receive 0 initReply, .dispatch 0, .receive 0 runReply, .close, .dispatch 0] :=
  (assignedOnce_run _).1 (by decide)

/-- A failing reply, and then the connection is aborted: `when_aborted_` is fulfilled twice. -/
theorem not_assignedOnce_abort : ¬ AllStates step AssignedOnce init
    [.connected, .receive 0 InvocationSession.badGateway, .abort, .dispatch 0, .dispatch 0] := by
  intro honce
  obtain ⟨c, hc⟩ : ∃ c, run step init
      [.connected, .receive 0 InvocationSession.badGateway, .abort, .dispatch 0, .dispatch 0] =
        some c := ⟨_, rfl⟩
  have hlog : (some c).map (fun c => c.session.setValues) =
      some [.aborted, .connected, .finished, .aborted] := hc ▸ rfl
  have htwice := honce.last hc .aborted
  have hset : c.session.setValues = [.aborted, .connected, .finished, .aborted] :=
    Option.some.inj hlog
  rw [hset] at htwice
  exact absurd htwice (by decide)

end Connection

end Umm
