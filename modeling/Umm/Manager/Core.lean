import Mathlib.Logic.Function.Basic
import Umm.Manager.Instance

/-!
# The state of a core

`Core` is what one core's `UmManager` keeps: the slot and its status, the queue of idle instances
with the maps beside it, the instances themselves, the active instance of the core's network proxy
and the pending events of the event loop.  Fields whose docstring says "log" are not in the source:
they record what the results of this directory speak about.

A function that can abort returns `Except Abort`.  `Abort` tells the ways apart; assertions of the
debug build are not modelled, as in the default build.
-/

namespace Umm

/-- `UmManager::Status`. -/
inductive Status where
  | empty
  | loaded
  | active
  | snapshot
  | idle
  | halting
  | finished
deriving DecidableEq, Repr

namespace Status

/-- The transitions `UmmStatus::set` accepts. -/
def allows (old : Status) : Status → Bool
  | .empty => !(old == .active || old == .snapshot)
  | .loaded => old == .empty
  | .active => old == .loaded || old == .snapshot || old == .idle
  | .idle => old == .active || old == .loaded
  | .snapshot => old == .active
  | .halting => !(old == .finished || old == .empty)
  | .finished => old == .halting

end Status

/-- The ways a core aborts or crashes. -/
inductive Abort where
  /-- `UmmStatus::set` rejects a transition. -/
  | badStatus (old new : Status)
  /-- `Halt` is run with an empty slot. -/
  | haltEmpty
  /-- Any other `kabort` or `kbugon`. -/
  | kabort
  /-- A null pointer is dereferenced. -/
  | nullDeref
  /-- The gateway restores an exception frame that was never saved. -/
  | strayFrame
  /-- `unblock_execution` of the instance finds no saved context. -/
  | noContext (id : UmiId)
  /-- `Sleep` of the instance finds its timer set. -/
  | timerAlreadySet (id : UmiId)
deriving DecidableEq, Repr

/-- What `ProcessOutgoing` distinguishes about a packet. -/
structure OutPacket where
  /-- The packet is an IPv4 packet for a destination outside the host. -/
  isExternal : Bool
  /-- The protocol is TCP. -/
  tcp : Bool
  /-- The length of the TCP payload. -/
  payloadLen : ℕ
deriving DecidableEq, Repr

/-- The packet is a TCP packet for a destination outside the host. -/
def OutPacket.isExternalTcp (pkt : OutPacket) : Bool :=
  pkt.isExternal && pkt.tcp

/-- The events of a core's event loop. -/
inductive Event where
  /-- A deferred `Yield`. -/
  | yield
  /-- A deferred `Halt`. -/
  | halt
  /-- `ProcessOutgoing`, spawned by a `netwrite` of the instance `writer`. -/
  | processOutgoing (writer : UmiId) (pkt : OutPacket)
  /-- The activation of a saved context. -/
  | activateContext (ctx : EventContext)
  /-- An event of another component of the host. -/
  | other
deriving DecidableEq, Repr

/-- Guest code in control: the instance, and the load of the slot it was entered or resumed in. -/
structure Guest where
  /-- The instance. -/
  id : UmiId
  /-- The number of slot loads when the guest was last entered or resumed. -/
  generation : ℕ
deriving DecidableEq, Repr

/-- What was the case when `Block` returned to a guest. -/
structure BlockReturn where
  /-- The guest. -/
  guest : UmiId
  /-- The slot status. -/
  status : Status
  /-- The active instance. -/
  activeUmi : Option UmiId
deriving DecidableEq, Repr

/-- The state of one core. -/
structure Core where
  /-- `status_`. -/
  status : Status
  /-- `active_umi_`. -/
  activeUmi : Option UmiId
  /-- `idle_umi_queue_`. -/
  idleUmiQueue : List UmiId
  /-- `inactive_umi_map_`. -/
  inactiveUmiMap : UmiId → Option UmiId
  /-- The keys of `inactive_umi_halt_map_`. -/
  inactiveUmiHaltMap : UmiId → Bool
  /-- The keys of `activation_promise_map_`. -/
  activationPromiseMap : UmiId → Bool
  /-- The instances, by their identifiers. -/
  umis : UmiId → UmInstance
  /-- `umi_id_` of the core's proxy. -/
  proxyUmi : UmiId
  /-- The pending events, the oldest first. -/
  events : List Event
  /-- The guests whose code is in control; while there is none, the event loop is. -/
  guests : List Guest
  /-- The number of slot loads so far. -/
  loads : ℕ
  /-- The number of contexts saved so far. -/
  contexts : ℕ
  /-- Log of the external TCP packets sent: who wrote each and the instance it was sent as. -/
  sent : List (UmiId × UmiId)
  /-- Log of the returns of `Block`. -/
  blockReturns : List BlockReturn
  /-- Log of the contexts that were passed to `ActivateContext`. -/
  activated : List EventContext
  /-- Log of the instances entered, and the calls that entered them. -/
  entered : List (Call × UmiId)
  /-- Log of the instances submitted to `Load` or `Run`. -/
  submitted : List UmiId
  /-- Log of the instances handed back, and the calls that returned them. -/
  handedBack : List (Call × UmiId)

namespace Core

/-- A core that starts empty. -/
def init : Core where
  status := .empty
  activeUmi := none
  idleUmiQueue := []
  inactiveUmiMap := fun _ => none
  inactiveUmiHaltMap := fun _ => false
  activationPromiseMap := fun _ => false
  umis := fun _ => UmInstance.init
  proxyUmi := nullId
  events := []
  guests := []
  loads := 0
  contexts := 0
  sent := []
  blockReturns := []
  activated := []
  entered := []
  submitted := []
  handedBack := []

/-! ## Small operations -/

/-- `UmmStatus::set`. -/
def setStatus (s : Core) (new : Status) : Except Abort Core :=
  if s.status.allows new then .ok { s with status := new }
  else .error (.badStatus s.status new)

/-- Replace the state of the instance `id`. -/
def setUmi (s : Core) (id : UmiId) (x : UmInstance) : Core :=
  { s with umis := Function.update s.umis id x }

/-- `SpawnLocal`: the event is performed later. -/
def spawnLocal (s : Core) (e : Event) : Core :=
  { s with events := s.events ++ [e] }

/-- `slot_queue_push`. -/
def slotQueuePush (s : Core) (id : UmiId) : Core :=
  { s with idleUmiQueue := s.idleUmiQueue ++ [id] }

/-- `slot_queue_remove`. -/
def slotQueueRemove (s : Core) (id : UmiId) : Core :=
  { s with idleUmiQueue := s.idleUmiQueue.erase id }

/-- `slot_queue_move_to_front`. -/
def slotQueueMoveToFront (s : Core) (id : UmiId) : Core :=
  { s with
    idleUmiQueue :=
      if s.idleUmiQueue.head? = some id then s.idleUmiQueue
      else if id ∈ s.idleUmiQueue then id :: s.idleUmiQueue.erase id
      else s.idleUmiQueue }

/-- `inactive_umi_map_.emplace(id, umi)`, which keeps an entry that is already there. -/
def emplaceInactive (s : Core) (id : UmiId) : Core :=
  { s with
    inactiveUmiMap := Function.update s.inactiveUmiMap id ((s.inactiveUmiMap id).or (some id)) }

/-- `ActiveInstanceId`. -/
def activeInstanceId (s : Core) : UmiId :=
  s.activeUmi.getD nullId

/-- `GetInstance`. -/
def getInstance (s : Core) (id : UmiId) : Option UmiId :=
  if id = nullId then none
  else if s.activeUmi = some id then s.activeUmi
  else s.inactiveUmiMap id

/-- `request_slot_entry`. -/
def requestSlotEntry (s : Core) (id : UmiId) : Bool :=
  s.activeInstanceId == id &&
    !(s.status == .halting || s.status == .snapshot || s.status == .finished)

end Core

end Umm
