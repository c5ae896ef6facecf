import Mathlib.Tactic.Common
import Umm.Basic

/-!
# The instance as the scheduler sees it

`UmInstance` holds what the scheduler reads and writes of an instance: its activity flag, the
context it is blocked in, its timer and its receive queue.  Times are nanoseconds of the wall clock,
and `0` is the clear time point.
-/

namespace Umm

/-- The calls that enter an instance, whose exception frames the gateway saves and restores. -/
inductive Call where
  /-- `UmManager::Start`. -/
  | start (id : UmiId)
  /-- `UmManager::Run`. -/
  | run (id : UmiId)
deriving DecidableEq, Repr

/-- A saved event context: the event of a guest that blocked inside `block_execution`. -/
structure EventContext where
  /-- The guest whose code continues when the context is activated. -/
  guest : UmiId
  /-- The instance whose `block_execution` saved the context. -/
  umi : UmiId
  /-- The number of contexts that were saved before this one. -/
  serial : ℕ
deriving DecidableEq, Repr

/-- `IOBuf`: a chain of buffers, each the bytes that are left of it. -/
abbrev IOBuf := List (List UInt8)

namespace IOBuf

/-- `ComputeChainDataLength`. -/
def computeChainDataLength (buf : IOBuf) : ℕ :=
  buf.foldl (fun len first => len + first.length) 0

/-- `Advance`, which acts on the first buffer of the chain. -/
def advance (buf : IOBuf) (len : ℕ) : IOBuf :=
  match buf with
  | [] => []
  | first :: rest => first.drop len :: rest

end IOBuf

/-- The scheduling and receive state of an instance. -/
structure UmInstance where
  /-- `active_`. -/
  active : Bool
  /-- `blocked_`. -/
  blocked : Bool
  /-- `timer_set`: the timer hook is armed. -/
  timerSet : Bool
  /-- `time_wait`: the instance sleeps until this time. -/
  timeWait : ℕ
  /-- The earliest time at which the armed timer fires. -/
  timerDue : ℕ
  /-- `context_`. -/
  context : Option EventContext
  /-- `umi_recv_queue_`. -/
  umiRecvQueue : List IOBuf
  /-- `caller_restore_frame_`: the call the instance was entered by. -/
  callerRestoreFrame : Option Call

namespace UmInstance

/-- The state after construction. -/
def init : UmInstance where
  active := true
  blocked := false
  timerSet := false
  timeWait := 0
  timerDue := 0
  context := none
  umiRecvQueue := []
  callerRestoreFrame := none

/-- `SetActive`. -/
def setActive (x : UmInstance) : UmInstance :=
  { x with active := true }

/-- `SetInactive`. -/
def setInactive (x : UmInstance) : UmInstance :=
  { x with active := false }

/-- `HasData`. -/
def hasData (x : UmInstance) : Bool :=
  !x.umiRecvQueue.isEmpty

/-- What `ReadPacket` leaves of the receive queue: a packet that fits is taken off, a longer one is
advanced. -/
def readPacket (x : UmInstance) (len : ℕ) : UmInstance :=
  match x.umiRecvQueue with
  | [] => x
  | front :: rest =>
    if front.computeChainDataLength ≤ len then { x with umiRecvQueue := rest }
    else { x with umiRecvQueue := front.advance len :: rest }

/-- `enable_timer`: the timer is started for whole microseconds. -/
def enableTimer (x : UmInstance) (now : ℕ) : UmInstance :=
  if x.timerSet ∨ x.timeWait ≤ now then x
  else { x with timerSet := true, timerDue := now + (x.timeWait - now) / 1000 * 1000 }

/-- `disable_timer`. -/
def disableTimer (x : UmInstance) : UmInstance :=
  { x with timerSet := false, timeWait := 0 }

section Frame

variable (x : UmInstance) (len now : ℕ)

/-- `SetActive` makes the instance active. -/
@[simp] theorem active_setActive : x.setActive.active = true := rfl

/-- It does not unblock it. -/
@[simp] theorem blocked_setActive : x.setActive.blocked = x.blocked := rfl

/-- It keeps the saved context. -/
@[simp] theorem context_setActive : x.setActive.context = x.context := rfl

/-- It keeps the frame to return to. -/
@[simp] theorem callerRestoreFrame_setActive :
    x.setActive.callerRestoreFrame = x.callerRestoreFrame := rfl

/-- `SetInactive` makes the instance inactive. -/
@[simp] theorem active_setInactive : x.setInactive.active = false := rfl

/-- It does not unblock it. -/
@[simp] theorem blocked_setInactive : x.setInactive.blocked = x.blocked := rfl

/-- It keeps the saved context. -/
@[simp] theorem context_setInactive : x.setInactive.context = x.context := rfl

/-- It keeps the frame to return to. -/
@[simp] theorem callerRestoreFrame_setInactive :
    x.setInactive.callerRestoreFrame = x.callerRestoreFrame := rfl

/-- `disable_timer` does not change whether the instance is active. -/
@[simp] theorem active_disableTimer : x.disableTimer.active = x.active := rfl

/-- It does not unblock it. -/
@[simp] theorem blocked_disableTimer : x.disableTimer.blocked = x.blocked := rfl

/-- It keeps the saved context. -/
@[simp] theorem context_disableTimer : x.disableTimer.context = x.context := rfl

/-- `enable_timer` does not change whether the instance is active. -/
@[simp] theorem active_enableTimer : (x.enableTimer now).active = x.active := by
  unfold enableTimer
  split_ifs <;> rfl

/-- It does not unblock it. -/
@[simp] theorem blocked_enableTimer : (x.enableTimer now).blocked = x.blocked := by
  unfold enableTimer
  split_ifs <;> rfl

/-- It keeps the saved context. -/
@[simp] theorem context_enableTimer : (x.enableTimer now).context = x.context := by
  unfold enableTimer
  split_ifs <;> rfl

/-- `ReadPacket` does not change whether the instance is active. -/
@[simp] theorem active_readPacket : (x.readPacket len).active = x.active := by
  unfold readPacket
  split
  · rfl
  · split_ifs <;> rfl

/-- It does not unblock it. -/
@[simp] theorem blocked_readPacket : (x.readPacket len).blocked = x.blocked := by
  unfold readPacket
  split
  · rfl
  · split_ifs <;> rfl

/-- It keeps the saved context. -/
@[simp] theorem context_readPacket : (x.readPacket len).context = x.context := by
  unfold readPacket
  split
  · rfl
  · split_ifs <;> rfl

end Frame

end UmInstance

end Umm
