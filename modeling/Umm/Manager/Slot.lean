import Umm.Foundations.Outcome
import Umm.Manager.Core

/-!
# The slot: loading, yielding, entering and halting

The functions of `UmManager` and `UmInstance` that move instances in and out of the slot and guests
in and out of control, translated one by one.  The breakpoint exception that `Start`, `Run` and
`Halt` raise is a call of `processGateway`; when it leaves the slot, the interrupted `Start` or `Run`
continues in `resumeCall`.
-/

namespace Umm

namespace Core

/-! ## Loading and unloading -/

/-- `slot_unload_instance`: the instance that was in the slot, and the state without it. -/
def slotUnloadInstance (s : Core) : Except Abort (Option UmiId × Core) := do
  let s ← s.setStatus .empty
  .ok (s.activeUmi, { s with activeUmi := none })

/-- `slot_load_instance`. -/
def slotLoadInstance (s : Core) (id : UmiId) : Except Abort Core :=
  { s with proxyUmi := id, activeUmi := some id, loads := s.loads + 1 }.setStatus .loaded

/-- What `Yield` and `slot_swap_instance` do to take the loaded instance out of the slot: unload it
and put it at the end of the queue. -/
def slotUnloadToQueue (s : Core) : Except Abort Core := do
  let (old, s) ← s.slotUnloadInstance
  match old with
  | none => .error .nullDeref
  | some id => .ok ((s.emplaceInactive id).slotQueuePush id)

/-- `slot_swap_instance`. -/
def slotSwapInstance (s : Core) (id : UmiId) : Except Abort Core := do
  let s ← if s.status ≠ .empty then s.slotUnloadToQueue else .ok s
  s.slotLoadInstance id

/-- `queue_instance_activation`. -/
def queueInstanceActivation (s : Core) (id : UmiId) : Core :=
  { (s.slotQueuePush id).emplaceInactive id with
    activationPromiseMap := Function.update s.activationPromiseMap id true }

/-- `RemoveInstanceState` of the core's proxy. -/
def removeInstanceState (s : Core) (id : UmiId) : Core :=
  { s with proxyUmi := if s.proxyUmi = id then 0 else s.proxyUmi }

/-! ## Guests in and out of control -/

/-- `Kick`, with `unblock_execution`. -/
def kick (s : Core) (id : UmiId) : Except Abort Core :=
  if (s.umis id).blocked then
    match (s.umis id).context with
    | none => .error (.noContext id)
    | some ctx =>
      let s := { s with activated := ctx :: s.activated }
      .ok ((s.setUmi id { s.umis id with blocked := false }.disableTimer).spawnLocal
        (.activateContext ctx))
  else .ok s

/-- `block_execution` of the instance `id`, up to the point where its context is saved: `guest`
leaves control. -/
def blockExecution (s : Core) (guest id : UmiId) : Core :=
  { s.setUmi id { s.umis id with context := some ⟨guest, id, s.contexts⟩, blocked := true } with
    contexts := s.contexts + 1
    guests := [] }

/-- The rest of `Block` once `Sleep` has returned: `guest` is in control again. -/
def returnFromBlock (s : Core) (guest : UmiId) : Except Abort Core := do
  if s.status = .halting ∨ s.status = .finished then .error .kabort
  else
    let r : BlockReturn := ⟨guest, s.status, s.activeUmi⟩
    let s ← s.setStatus .active
    .ok { s with guests := [⟨guest, s.loads⟩], blockReturns := r :: s.blockReturns }

/-- `Sleep` of the instance `id` inside `Block`, when the clock reads `now`. -/
def sleep (s : Core) (guest id : UmiId) (ns now : ℕ) : Except Abort Core :=
  if (s.umis id).timerSet then .error (.timerAlreadySet id)
  else if ns = 0 then s.returnFromBlock guest
  else if (s.umis id).active then
    let x := { s.umis id with timeWait := now + ns }.enableTimer now
    .ok ((s.setUmi id x).blockExecution guest id)
  else .ok (s.blockExecution guest id)

/-- `Block`, called by `guest`. -/
def block (s : Core) (guest : UmiId) (ns now : ℕ) : Except Abort Core := do
  let s ← s.setStatus .idle
  match s.activeUmi with
  | none => .error .nullDeref
  | some id => s.sleep guest id ns now

/-- The activation of a saved context: the rest of `block_execution`, which blocks again when the
slot may not be entered. -/
def activateContext (s : Core) (ctx : EventContext) : Except Abort Core :=
  let s := s.setUmi ctx.umi { s.umis ctx.umi with context := none }
  if s.requestSlotEntry ctx.umi then s.returnFromBlock ctx.guest
  else .ok (s.blockExecution ctx.guest ctx.umi)

/-- `Fire` of the instance `id`, when the clock reads `now`. -/
def fire (s : Core) (id : UmiId) (now : ℕ) : Except Abort Core :=
  let s := s.setUmi id { s.umis id with timerSet := false }
  if (s.umis id).timeWait ≠ 0 ∧ (s.umis id).timeWait ≤ now then
    let s := s.setUmi id { s.umis id with timeWait := 0 }
    if s.requestSlotEntry id then s.kick id else .ok s
  else .ok s

/-! ## The gateway -/

/-- `Start` spawns a `Yield` after the breakpoint exception has returned, when instances are waiting;
`Run` does not. -/
def spawnYieldAfter (s : Core) (call : Call) : Core :=
  { s with
    events :=
      match call with
      | .start _ => if s.idleUmiQueue.length ≠ 0 then s.events ++ [.yield] else s.events
      | .run _ => s.events }

/-- What is left of `Start` and `Run` after the breakpoint exception has returned: both unload the
slot and return its instance. -/
def resumeCall (s : Core) (call : Call) : Except Abort Core := do
  let (old, s) ← (s.spawnYieldAfter call).slotUnloadInstance
  .ok { s with handedBack := old.toList.map (call, ·) ++ s.handedBack }

/-- `process_gateway`.  `frame` is the exception frame: of the `Start` or `Run` that raised the
exception, or of neither. -/
def processGateway (s : Core) (frame : Option Call) : Except Abort Core :=
  match s.status with
  | .loaded =>
    match s.activeUmi with
    | none => .error .nullDeref
    | some id => do
      let s ← (s.setUmi id { s.umis id with callerRestoreFrame := frame }).setStatus .active
      .ok { s with
        guests := [⟨id, s.loads⟩]
        entered := frame.toList.map (·, id) ++ s.entered }
  | .halting =>
    match s.activeUmi with
    | none => .error .nullDeref
    | some id =>
      match (s.umis id).callerRestoreFrame with
      | none => .error .strayFrame
      | some call => do
        let s ← s.setStatus .finished
        { s with guests := [] }.resumeCall call
  | _ => .error .kabort

/-- `Halt`. -/
def halt (s : Core) : Except Abort Core :=
  if s.status = .empty then .error .haltEmpty
  else
    match s.activeUmi with
    | none => .error .nullDeref
    | some id => do
      let s ← (s.setUmi id (s.umis id).setActive).setStatus .halting
      if s.events.length ≠ 0 then .ok (s.spawnLocal .halt)
      else (s.removeInstanceState id).processGateway none

/-- `Start`. -/
def start (s : Core) (id : UmiId) : Except Abort Core :=
  s.processGateway (some (.start id))

/-- `Run`; both ways to take over an idle core abort. -/
def run (s : Core) (id : UmiId) : Except Abort Core :=
  if s.status = .empty then do
    let s ← s.slotLoadInstance id
    s.processGateway (some (.run id))
  else .error .kabort

/-! ## Yielding -/

/-- The first instance of the queue that is active. -/
def findEligible (s : Core) : Option UmiId :=
  s.idleUmiQueue.findSome? fun id => (s.getInstance id).filter fun x => (s.umis x).active

/-- Take the instance `next` off the scheduling queues. -/
def takeInactive (s : Core) (next : UmiId) : Core :=
  { s with inactiveUmiMap := Function.update s.inactiveUmiMap next none }.slotQueueRemove next

/-- The end of `Yield`, with the instance `next` loaded: complete its activation, halt it, or unblock
it. -/
def yieldTo (s : Core) (next : UmiId) : Except Abort Core :=
  if s.activationPromiseMap next then
    .ok { s with activationPromiseMap := Function.update s.activationPromiseMap next false }
  else if s.inactiveUmiHaltMap next then do
    let s ← { s with
      inactiveUmiHaltMap := Function.update s.inactiveUmiHaltMap next false }.setStatus .idle
    s.halt
  else do
    let s ← s.setStatus .idle
    match s.activeUmi with
    | none => .error .nullDeref
    | some id => s.kick id

/-- `Yield`. -/
def yield (s : Core) : Except Abort Core :=
  if s.activeUmi.any fun id => (s.umis id).active then .ok s
  else if s.status ≠ .idle ∧ s.status ≠ .empty then .ok s
  else if s.idleUmiQueue.length = 0 then s.slotUnloadToQueue
  else
    match s.findEligible with
    | none => .ok s
    | some next =>
      match s.inactiveUmiMap next with
      | none => .error .kabort
      | some nextUmi => do
        let s := s.takeInactive next
        let s ←
          if s.status = .idle then s.slotSwapInstance nextUmi
          else if s.status = .empty then s.slotLoadInstance nextUmi
          else .error .kabort
        s.yieldTo next

/-! ## Requests to the scheduler -/

/-- `Load`. -/
def load (s : Core) (id : UmiId) : Except Abort Core :=
  if s.status = .empty then s.slotLoadInstance id
  else if s.status = .idle then
    match s.activeUmi with
    | none => .error .nullDeref
    | some old =>
      if (s.umis old).active then .ok (s.queueInstanceActivation id)
      else s.slotSwapInstance id
  else .ok (s.queueInstanceActivation id)

/-- `SignalHalt`. -/
def signalHalt (s : Core) (id : UmiId) : Except Abort Core :=
  match s.activeUmi with
  | none => .error .nullDeref
  | some x =>
    if id = x then s.halt
    else
      { s.slotQueueMoveToFront id with
        inactiveUmiHaltMap := Function.update s.inactiveUmiHaltMap id true }.yield

/-- `SignalYield`. -/
def signalYield (s : Core) (id : UmiId) : Core :=
  if s.activeInstanceId ≠ id then s else s.spawnLocal .yield

/-- `SignalResume`. -/
def signalResume (s : Core) (id : UmiId) : Except Abort Core :=
  if s.activeInstanceId = id then
    match s.activeUmi with
    | none => .error .nullDeref
    | some x => s.kick x
  else (s.slotQueueMoveToFront id).yield

/-! ## Packets and hypercalls -/

/-- `ProcessIncoming` of a packet for the instance `id`, up to the point where `WritePacket` has
signalled the instance: a packet with payload from outside marks the instance active. -/
def processIncoming (s : Core) (id : UmiId) (payload : Bool) : Except Abort Core :=
  match s.getInstance id with
  | none => .ok s
  | some x =>
    let s := if payload then s.setUmi x (s.umis x).setActive else s
    s.signalResume x

/-- The end of `WritePacket`: the packet enters the receive queue. -/
def enqueuePacket (s : Core) (id : UmiId) (buf : IOBuf) : Core :=
  s.setUmi id { s.umis id with umiRecvQueue := (s.umis id).umiRecvQueue ++ [buf] }

/-- `ProcessOutgoing` of a packet that `writer` wrote: an external TCP packet is sent as the active
instance of the proxy, and marks it inactive when it carries payload. -/
def processOutgoing (s : Core) (writer : UmiId) (pkt : OutPacket) : Except Abort Core :=
  if pkt.isExternalTcp then
    let s := { s with sent := (writer, s.proxyUmi) :: s.sent }
    if 0 < pkt.payloadLen then
      match s.getInstance s.proxyUmi with
      | none => .error .kabort
      | some x => .ok (s.setUmi x (s.umis x).setInactive)
    else .ok s
  else .ok s

/-- `solo5_hypercall_poll` of `guest`. -/
def poll (s : Core) (guest : UmiId) (ns now : ℕ) : Except Abort Core :=
  match s.activeUmi with
  | none => .error .nullDeref
  | some id => if (s.umis id).hasData then .ok s else s.block guest ns now

/-- `solo5_hypercall_netwrite` of `guest`. -/
def netwrite (s : Core) (guest : UmiId) (pkt : OutPacket) : Core :=
  s.spawnLocal (.processOutgoing guest pkt)

/-- `solo5_hypercall_netread`. -/
def netread (s : Core) (len : ℕ) : Except Abort Core :=
  match s.activeUmi with
  | none => .error .nullDeref
  | some id => .ok (s.setUmi id ((s.umis id).readPacket len))

end Core

end Umm
