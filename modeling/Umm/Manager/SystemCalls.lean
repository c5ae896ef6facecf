import Umm.Foundations.X64
import Umm.Manager.Frames

/-!
# The system call path

A guest makes a hypercall by SYSCALL.  `syscall_path` saves its return address and its flags on its
own stack, `sys_call_handler` saves its stack pointer in the instance and goes over to the stack of
the `Start` or `Run` that entered it, and when the hypercall returns, all is restored and SYSRET
leads back.  In between the guest may block, and other guests run.

`CpuState` is a core with the registers of its processor and the memory of each instance.  How a
core's processor is set up before is `CpuBoot`.
-/

namespace Umm

open Foundations Foundations.X64

/-! ## Segments and model-specific registers -/

/-- `segment_descriptor`. -/
structure SegmentDescriptor where
  /-- `lo_limit`. -/
  loLimit : BitVec 16 := 0
  /-- `lo_base`. -/
  loBase : BitVec 24 := 0
  /-- `type`. -/
  type : BitVec 4
  /-- `system_desc`. -/
  systemDesc : BitVec 1
  /-- `privilege_level`. -/
  privilegeLevel : BitVec 2
  /-- `present`. -/
  present : BitVec 1
  /-- `hi_limit`. -/
  hiLimit : BitVec 4 := 0
  /-- `available`. -/
  available : BitVec 1 := 0
  /-- `long_mode`. -/
  longMode : BitVec 1
  /-- `operation_size`. -/
  operationSize : BitVec 1 := 0
  /-- `granularity`. -/
  granularity : BitVec 1 := 0
  /-- `hi_base`. -/
  hiBase : BitVec 8 := 0

/-- `raw`: the fields come from the lowest bits on. -/
def SegmentDescriptor.raw (d : SegmentDescriptor) : BitVec 64 :=
  d.hiBase ++ d.granularity ++ d.operationSize ++ d.longMode ++ d.available ++ d.hiLimit ++
    d.present ++ d.privilegeLevel ++ d.systemDesc ++ d.type ++ d.loBase ++ d.loLimit

/-- `uss`, the user stack segment. -/
def userStackSegment : SegmentDescriptor :=
  { type := 2, systemDesc := 1, privilegeLevel := 3, present := 1, longMode := 1 }

/-- `ucs`, the user code segment. -/
def userCodeSegment : SegmentDescriptor :=
  { type := 0xa, systemDesc := 1, privilegeLevel := 3, present := 1, longMode := 1 }

/-- `addUserSegments`. -/
def addUserSegments (gdt : Gdt) : Gdt :=
  Function.update (Function.update gdt 3 userStackSegment.raw) 4 userCodeSegment.raw

/-- `enableCPUSyscallSysret`. -/
def enableCPUSyscallSysret (m : Msrs) : Msrs :=
  let (hi, lo) := rdmsr m ia32Efer
  if lo &&& 1 = 0 then wrmsr m ia32Efer hi (lo ||| 1) else m

/-- `configureSupSegments64`. -/
def configureSupSegments64 (syscallHandler : BitVec 64) (m : Msrs) : Msrs :=
  let (hi, _) := rdmsr m ia32Star
  let hi := hi &&& ((0xFFFF : BitVec 32) <<< 16)
  let hi := hi ||| (((1 : BitVec 32) <<< 3) ||| 0)
  let m := wrmsr m ia32Star hi 0
  wrmsr m ia32Lstar ((syscallHandler >>> 32).setWidth 32) ((syscallHandler &&& 0xFFFFFFFF).setWidth 32)

/-- `configureUserSegments64`. -/
def configureUserSegments64 (m : Msrs) : Msrs :=
  let (hi, _) := rdmsr m ia32Star
  let hi := hi &&& 0xFFFF
  let hi := hi ||| (((2 : BitVec 32) <<< 3) <<< 16)
  let hi := hi ||| ((3 : BitVec 32) <<< 16)
  wrmsr m ia32Star hi 0

/-- `enableSyscallSysret`. -/
def enableSyscallSysret (syscallPath : BitVec 64) (m : Msrs) : Msrs :=
  configureUserSegments64 (configureSupSegments64 syscallPath (enableCPUSyscallSysret m))

/-- The selector that the gateway puts in `ef->cs`. -/
def userCs : BitVec 16 :=
  ((4 : BitVec 16) <<< 3) ||| 3

/-- The selector that the gateway puts in `ef->ss`. -/
def userSs : BitVec 16 :=
  ((3 : BitVec 16) <<< 3) ||| 3

section Setup

variable (m : Msrs) (syscallPath : BitVec 64) (gdt : Gdt)

/-- `IA32_STAR` has the selectors of both directions, whatever it had before. -/
theorem star_enableSyscallSysret :
    enableSyscallSysret syscallPath m ia32Star = 0x0013000800000000 := by
  have hstar : ia32Star ≠ ia32Lstar := by decide
  unfold enableSyscallSysret configureUserSegments64 configureSupSegments64
  simp only [rdmsr_wrmsr_of_ne hstar, rdmsr_wrmsr, wrmsr_self]
  obtain ⟨hi, lo⟩ := rdmsr (enableCPUSyscallSysret m) ia32Star
  -- of the other half nothing is left
  have hmask : hi &&& ((0xFFFF : BitVec 32) <<< 16) &&& 0xFFFF = 0 := by
    rw [BitVec.and_assoc]
    exact BitVec.and_zero
  rw [BitVec.and_or_distrib_right, hmask]
  decide

/-- `IA32_LSTAR` has the address of `syscall_path`. -/
theorem lstar_enableSyscallSysret : enableSyscallSysret syscallPath m ia32Lstar = syscallPath := by
  have hlstar : ia32Lstar ≠ ia32Star := by decide
  unfold enableSyscallSysret configureUserSegments64 configureSupSegments64
  simp only [wrmsr_of_ne hlstar, wrmsr_self]
  have hones : BitVec.setWidth 32 (0xFFFFFFFF : BitVec 64) = BitVec.allOnes 32 := by decide
  rw [BitVec.setWidth_and, hones, BitVec.and_allOnes, BitVec.setWidth_ushiftRight_eq_extractLsb,
    BitVec.setWidth_eq_extractLsb' (by decide)]
  exact BitVec.extractLsb'_append_extractLsb'

/-- SYSCALL and SYSRET are enabled. -/
theorem sce_enableSyscallSysret :
    (enableSyscallSysret syscallPath m ia32Efer).getLsbD 0 = true := by
  have hstar : ia32Efer ≠ ia32Star := by decide
  have hlstar : ia32Efer ≠ ia32Lstar := by decide
  unfold enableSyscallSysret configureUserSegments64 configureSupSegments64
  simp only [wrmsr_of_ne hstar, wrmsr_of_ne hlstar]
  unfold enableCPUSyscallSysret
  change ((if (rdmsr m ia32Efer).2 &&& 1 = 0 then
    wrmsr m ia32Efer (rdmsr m ia32Efer).1 ((rdmsr m ia32Efer).2 ||| 1) else m)
      ia32Efer).getLsbD 0 = true
  split_ifs with hlo
  · rw [wrmsr_self, BitVec.getLsbD_append]
    simp
  · by_contra hbit
    refine hlo (BitVec.eq_of_getLsbD_eq fun i hi => ?_)
    rcases Nat.eq_zero_or_pos i with rfl | hpos
    · simpa [rdmsr] using hbit
    · simp [Nat.ne_of_gt hpos]

/-- IRET loads the segments that the gateway asks for. -/
theorem loadsSegments_addUserSegments {f : Registers} (hcs : f.cs = userCs) (hss : f.ss = userSs) :
    LoadsSegments (addUserSegments gdt) f := by
  have hcode : addUserSegments gdt 4 = userCodeSegment.raw := Function.update_self ..
  have hdata : addUserSegments gdt 3 = userStackSegment.raw := Function.update_of_ne (by decide) ..
  unfold LoadsSegments Registers.cpl
  rw [hcs, hss]
  have hcs : userCs >>> 3 = 4 := by decide
  have hss : userSs >>> 3 = 3 := by decide
  rw [hcs, hss, hcode, hdata]
  decide

end Setup

/-! ## The machine -/

/-- How a core starts: what its processor and its memory hold, and where the code of the call path
is. -/
structure CpuBoot where
  /-- The model-specific registers before `UmManager` is constructed. -/
  powerOnMsrs : Msrs
  /-- The segment descriptors before that. -/
  powerOnGdt : Gdt
  /-- The registers. -/
  regs : Registers
  /-- The address of `syscall_path`. -/
  syscallPath : BitVec 64
  /-- The bytes that the call of `sys_call_handler` takes of the stack before it reads `rsp`. -/
  frameSize : BitVec 64
  /-- `ef` of the state vector of each instance. -/
  ef : UmiId → Registers
  /-- The entry points are addresses that the processor can jump to. -/
  canonical_ef : ∀ id, Canonical (ef id).rip
  /-- `fnStack` of each instance, which is not initialised. -/
  fnStack : UmiId → BitVec 64
  /-- `rsp` of `caller_restore_frame_` of each instance, which is not initialised. -/
  callerRestoreRsp : UmiId → BitVec 64
  /-- The memory of each instance, as it is loaded. -/
  mem : UmiId → X64.Memory

/-- The model-specific registers after `UmManager::UmManager`. -/
def CpuBoot.msrs (boot : CpuBoot) : Msrs :=
  enableSyscallSysret boot.syscallPath boot.powerOnMsrs

/-- The segment descriptors after `UmManager::UmManager`. -/
def CpuBoot.gdt (boot : CpuBoot) : Gdt :=
  addUserSegments boot.powerOnGdt

/-- A core with its processor. -/
structure CpuState where
  /-- The scheduler. -/
  core : Core
  /-- The registers of the processor. -/
  regs : Registers
  /-- `fnStack` of each instance. -/
  fnStack : UmiId → BitVec 64
  /-- `rsp` of `caller_restore_frame_` of each instance. -/
  callerRestoreRsp : UmiId → BitVec 64
  /-- The memory of each instance. -/
  mem : UmiId → X64.Memory
  /-- Log of the hypercalls: the guest, and the stack pointer the hypercall was handled with. -/
  handled : List (UmiId × BitVec 64)

/-- Bytes that a hypercall writes to the memory of its guest. -/
abbrev Output := BitVec 64 → Option (BitVec 8)

/-- The memory with these bytes. -/
def Output.over (out : Output) (mem : X64.Memory) : X64.Memory :=
  fun x => (out x).getD (mem x)

/-- One step of a core with its processor. -/
inductive CpuStep where
  /-- The guest in control runs: its registers and its memory become these. -/
  | guest (regs : Registers) (mem : X64.Memory)
  /-- The guest in control makes a hypercall, which writes `out` before it blocks or returns. -/
  | hypercall (a : Step) (out : Output)
  /-- The host does something with the registers `regs`; when a hypercall returns in it, that one
  writes `out` before. -/
  | event (a : Step) (regs : Registers) (out : Output)

namespace CpuState

/-- The state after boot. -/
def init (boot : CpuBoot) : CpuState where
  core := Core.init
  regs := boot.regs
  fnStack := boot.fnStack
  callerRestoreRsp := boot.callerRestoreRsp
  mem := boot.mem
  handled := []

/-- `GetKernStackPtr`. -/
def getKernStackPtr (s : CpuState) : Option (BitVec 64) :=
  s.core.activeUmi.map s.callerRestoreRsp

/-- `RestoreFnStackPtr`. -/
def restoreFnStackPtr (s : CpuState) : Option (BitVec 64) :=
  s.core.activeUmi.map s.fnStack

/-- `SaveFnStackPtr`. -/
def saveFnStackPtr (s : CpuState) (fnStack : BitVec 64) : Option CpuState :=
  s.core.activeUmi.map fun id => { s with fnStack := Function.update s.fnStack id fnStack }

/-- The memory in the slot. -/
def slotMem (s : CpuState) : X64.Memory :=
  s.mem s.core.activeInstanceId

/-- Replace the memory in the slot. -/
def setSlotMem (s : CpuState) (mem : X64.Memory) : CpuState :=
  { s with mem := Function.update s.mem s.core.activeInstanceId mem }

variable (boot : CpuBoot)

/-- The end of `sys_call_handler` and of `syscall_path`: go back to the stack of the guest, restore
its flags and its return address, and leave by SYSRET. -/
def sysCallReturn (s : CpuState) : Option CpuState := do
  let rsp ← s.restoreFnStackPtr
  let (r11, regs) := pop { s.regs with rsp := rsp + boot.frameSize } s.slotMem
  let (rcx, regs) := pop { regs with r11 := r11 } s.slotMem
  let regs ← sysret boot.msrs { regs with rcx := rcx }
  some { s with regs := regs }

/-- `sys_call_handler`, up to the end of the hypercall `a`: save the stack pointer of the guest, go
over to the other stack, and perform the hypercall. -/
def sysCallHandler (s : CpuState) (a : Step) (out : Output) : Option CpuState := do
  let s ← s.saveFnStackPtr (s.regs.rsp - boot.frameSize)
  let kernRsp ← s.getKernStackPtr
  let s := { s with
    regs.rsp := kernRsp
    handled := (s.core.guest, kernRsp) :: s.handled }
  let core ← s.core.step a
  some { s.setSlotMem (out.over s.slotMem) with core := core }

/-- SYSCALL and `syscall_path`.  When the guest blocks in the hypercall or is halted by it, the event
loop goes on. -/
def sysCall (s : CpuState) (a : Step) (out : Output) : Option CpuState := do
  let regs ← X64.syscall boot.msrs s.regs
  -- the code below is what is at the address of `syscall_path`
  if regs.rip ≠ boot.syscallPath then none
  else
    let (regs, mem) := push regs s.slotMem regs.rcx
    let (regs, mem) := push regs mem regs.r11
    let s := { s.setSlotMem mem with regs := { regs with r11 := 0, ss := 0 } }
    let s ← s.sysCallHandler boot a out
    if s.core.guests.isEmpty then some s else s.sysCallReturn boot

/-- `process_gateway` for the loaded instance, of the `Start` or `Run` with these registers: its
stack pointer is saved, and IRET enters the guest with the frame of the state vector. -/
def processGateway (s : CpuState) : Option CpuState := do
  let id ← s.core.activeUmi
  let regs ← iret boot.gdt { boot.ef id with ss := userSs, cs := userCs }
  some { s with
    callerRestoreRsp := Function.update s.callerRestoreRsp id s.regs.rsp
    regs := regs }

/-- What is left of a step of the host, once the scheduler has done its part: nothing while no guest
is in control, the end of the gateway when it has entered one, and otherwise the end of the hypercall
in which the guest has blocked. -/
def afterStep (s : CpuState) (core : Core) (out : Output) : Option CpuState :=
  let t := { s with core := core }
  if core.guests.isEmpty then some t
  else if core.entered = s.core.entered then
    (t.setSlotMem (out.over t.slotMem)).sysCallReturn boot
  else t.processGateway boot

/-- The guest in control has run to these registers and this memory; it cannot change its segments. -/
def guestTo (s : CpuState) (regs : Registers) (mem : X64.Memory) : CpuState :=
  { s.setSlotMem mem with regs := { regs with cs := s.regs.cs, ss := s.regs.ss } }

/-- The machine: a step that aborts or faults is not taken.  The host runs with the highest
privilege. -/
def step (s : CpuState) : CpuStep → Option CpuState
  | .guest regs mem =>
    if s.core.guests.isEmpty ∨ ¬ Canonical regs.rip then none else some (s.guestTo regs mem)
  | .hypercall a out => if a.isHypercall then s.sysCall boot a out else none
  | .event a regs out =>
    if a.isHypercall ∨ regs.cpl ≠ 0 then none
    else (s.core.step a).bind fun core => { s with regs := regs }.afterStep boot core out

end CpuState

end Umm
