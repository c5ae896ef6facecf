import Umm.Foundations.Outcome
import Umm.Foundations.Run
import Umm.Manager.Slot

/-!
# The machine of a core

A step is one thing that can happen on a core: the event loop performs a pending event, a timer
fires, another component of the host calls the scheduler, or the guest in control makes a hypercall.
Events run to completion, so the event loop only takes a step while no guest is in control.  The
pending events may be performed in any order, and the clock may read anything.

`WritePacket` is two steps, `processIncoming` and `enqueuePacket`: between its two halves control
can leave, for a `Halt` that reaches the gateway or an activation that starts the instance.
-/

namespace Umm

/-- One step of a core. -/
inductive Step where
  /-- `Load` of an instance the core does not hold. -/
  | load (id : UmiId)
  /-- `Run` of an instance the core does not hold. -/
  | run (id : UmiId)
  /-- `Start`. -/
  | start (id : UmiId)
  /-- `SignalHalt`. -/
  | signalHalt (id : UmiId)
  /-- `SignalYield`. -/
  | signalYield (id : UmiId)
  /-- `SignalResume`. -/
  | signalResume (id : UmiId)
  /-- `Yield`. -/
  | yield
  /-- A component of the host spawns an event that runs `Halt`. -/
  | spawnHalt
  /-- A component of the host spawns an event of its own. -/
  | spawnOther
  /-- A packet for an instance arrives. -/
  | processIncoming (id : UmiId) (payload : Bool)
  /-- The packet enters the receive queue of the instance. -/
  | enqueuePacket (id : UmiId) (buf : IOBuf)
  /-- The event loop performs the pending event at index `i`. -/
  | dispatch (i : ℕ)
  /-- The timer of an instance fires. -/
  | fire (id : UmiId) (now : ℕ)
  /-- The guest in control calls `solo5_hypercall_poll`. -/
  | poll (ns now : ℕ)
  /-- The guest in control calls `solo5_hypercall_netwrite`. -/
  | netwrite (pkt : OutPacket)
  /-- The guest in control calls `solo5_hypercall_netread`. -/
  | netread (len : ℕ)
  /-- The guest in control calls `solo5_hypercall_halt`. -/
  | halt
deriving DecidableEq, Repr

namespace Step

/-- The hypercalls, which a guest makes. -/
def isHypercall : Step → Bool
  | .poll _ _ | .netwrite _ | .netread _ | .halt => true
  | _ => false

end Step

namespace Core

/-- Perform an event. -/
def performEvent (s : Core) : Event → Except Abort Core
  | .yield => s.yield
  | .halt => s.halt
  | .processOutgoing writer pkt => s.processOutgoing writer pkt
  | .activateContext ctx => s.activateContext ctx
  | .other => .ok s

/-- Perform the pending event at index `i`. -/
def dispatch (s : Core) (i : ℕ) : Except Abort Core :=
  match s.events[i]? with
  | none => .ok s
  | some e => { s with events := s.events.eraseIdx i }.performEvent e

/-- The instance is neither in the slot nor among the inactive ones. -/
def free (s : Core) (id : UmiId) : Bool :=
  id != nullId && s.activeUmi != some id && s.inactiveUmiMap id == none

/-- What a step needs: an instance to submit, an event to perform, a timer that is due. -/
def admits (s : Core) : Step → Bool
  | .load id | .run id => s.free id
  | .dispatch i => decide (i < s.events.length)
  | .fire id now => (s.umis id).timerSet && decide ((s.umis id).timerDue ≤ now)
  | _ => true

/-- The step can be taken: hypercalls by the guest in control, everything else by the event loop. -/
def enabled (s : Core) (a : Step) : Bool :=
  if a.isHypercall then !s.guests.isEmpty else s.guests.isEmpty && s.admits a

/-- The guest in control. -/
def guest (s : Core) : UmiId :=
  match s.guests with
  | [] => nullId
  | g :: _ => g.id

/-- Log that the instance is submitted. -/
def submit (s : Core) (id : UmiId) : Core :=
  { s with submitted := id :: s.submitted }

/-- What a step does. -/
def exec (s : Core) : Step → Except Abort Core
  | .load id => (s.submit id).load id
  | .run id => (s.submit id).run id
  | .start id => s.start id
  | .signalHalt id => s.signalHalt id
  | .signalYield id => .ok (s.signalYield id)
  | .signalResume id => s.signalResume id
  | .yield => s.yield
  | .spawnHalt => .ok (s.spawnLocal .halt)
  | .spawnOther => .ok (s.spawnLocal .other)
  | .processIncoming id payload => s.processIncoming id payload
  | .enqueuePacket id buf => .ok (s.enqueuePacket id buf)
  | .dispatch i => s.dispatch i
  | .fire id now => s.fire id now
  | .poll ns now => s.poll s.guest ns now
  | .netwrite pkt => .ok (s.netwrite s.guest pkt)
  | .netread len => s.netread len
  | .halt => s.halt

/-- The machine: a step that aborts is not taken. -/
def step (s : Core) (a : Step) : Option Core :=
  if s.enabled a then (s.exec a).toOption else none

theorem step_eq_some {s s' : Core} {a : Step} :
    s.step a = some s' ↔ s.enabled a = true ∧ s.exec a = .ok s' :=
  Foundations.guarded_eq_some

/-- A hypercall is made by a guest in control. -/
theorem guests_of_enabled_hypercall {s : Core} {a : Step} (h : s.enabled a = true)
    (ha : a.isHypercall = true) : ∃ g gs, s.guests = g :: gs := by
  rw [enabled, if_pos ha] at h
  cases hg : s.guests with
  | nil => simp [hg] at h
  | cons g gs => exact ⟨g, gs, rfl⟩

/-- Everything else is done by the event loop, when the step has what it needs. -/
theorem guests_of_enabled {s : Core} {a : Step} (h : s.enabled a = true)
    (ha : a.isHypercall = false) : s.guests = [] ∧ s.admits a = true := by
  rw [enabled, ha] at h
  simp only [Bool.false_eq_true, if_false, Bool.and_eq_true] at h
  exact ⟨List.isEmpty_iff.mp h.1, h.2⟩

end Core

end Umm
