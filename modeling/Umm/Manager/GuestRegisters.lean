import Umm.Manager.SystemCalls

/-!
# Guests keep their registers

`GuestState` says what the system call path is for: every guest has registers of its own, and a
hypercall is one instruction of it, which leaves its stack pointer alone, leads to the next
instruction, and changes no flags but those that SYSRET does.  The registers of a guest that is not in
control are in no processor; `view` finds them where the call path has left them, in `fnStack` and on
the stack of the guest.
-/

namespace Umm

open Foundations Foundations.X64

/-- The registers that a guest keeps. -/
@[ext]
structure UserRegisters where
  /-- The address of the next instruction. -/
  rip : BitVec 64
  /-- The stack pointer. -/
  rsp : BitVec 64
  /-- The flags. -/
  rflags : BitVec 64

namespace UserRegisters

/-- These of the registers of the processor. -/
def ofRegs (r : Registers) : UserRegisters :=
  ⟨r.rip, r.rsp, r.rflags⟩

/-- They after a hypercall. -/
def afterCall (r : UserRegisters) : UserRegisters :=
  { r with rflags := sysretFlags r.rflags }

/-- The memory of a guest with what a hypercall leaves below its stack pointer. -/
def callFrame (r : UserRegisters) (mem : X64.Memory) : X64.Memory :=
  writeWord (writeWord mem (r.rsp - 8) r.rip) (r.rsp - 8 - 8) r.rflags

end UserRegisters

/-- A core whose guests have registers of their own. -/
@[ext]
structure GuestState where
  /-- The scheduler. -/
  core : Core
  /-- The registers of each guest. -/
  regs : UmiId → UserRegisters
  /-- The stack pointer of the `Start` or `Run` that entered each guest. -/
  entryRsp : UmiId → BitVec 64
  /-- The memory of each guest. -/
  mem : UmiId → X64.Memory
  /-- Log of the hypercalls: the guest, and the stack pointer the hypercall was handled with. -/
  handled : List (UmiId × BitVec 64)

namespace GuestState

/-- The state after boot: no guest is in control. -/
def init (boot : CpuBoot) (regs : UmiId → UserRegisters) : GuestState where
  core := Core.init
  regs := regs
  entryRsp := boot.callerRestoreRsp
  mem := boot.mem
  handled := []

/-- The guest in control has run to these registers and this memory. -/
def guestTo (s : GuestState) (regs : Registers) (mem : X64.Memory) : GuestState :=
  { s with
    regs := Function.update s.regs s.core.guest (.ofRegs regs)
    mem := Function.update s.mem s.core.guest mem }

/-- A hypercall of the guest in control, after which the scheduler is `core`. -/
def call (s : GuestState) (core : Core) (out : Output) : GuestState where
  core := core
  regs := Function.update s.regs s.core.guest (s.regs s.core.guest).afterCall
  entryRsp := s.entryRsp
  mem := Function.update s.mem s.core.guest
    (out.over ((s.regs s.core.guest).callFrame (s.mem s.core.guest)))
  handled := (s.core.guest, s.entryRsp s.core.guest) :: s.handled

/-- A step of the host, after which the scheduler is `core`: a guest is entered, or its hypercall
returns, or none gets control. -/
def event (boot : CpuBoot) (s : GuestState) (core : Core) (rsp : BitVec 64) (out : Output) :
    GuestState :=
  if core.guests.isEmpty then { s with core := core }
  else if core.entered = s.core.entered then
    { s with
      core := core
      mem := Function.update s.mem core.guest (out.over (s.mem core.guest)) }
  else
    { s with
      core := core
      regs := Function.update s.regs core.guest (.ofRegs (boot.ef core.guest))
      entryRsp := Function.update s.entryRsp core.guest rsp }

/-- The machine. -/
def step (boot : CpuBoot) (s : GuestState) : CpuStep → Option GuestState
  | .guest regs mem =>
    if s.core.guests.isEmpty ∨ ¬ Canonical regs.rip then none else some (s.guestTo regs mem)
  | .hypercall a out =>
    if a.isHypercall then (s.core.step a).map fun core => s.call core out else none
  | .event a regs out =>
    if a.isHypercall ∨ regs.cpl ≠ 0 then none
    else (s.core.step a).map fun core => s.event boot core regs.rsp out

/-- A step of the machine is none of the scheduler, or one. -/
theorem core_step {boot : CpuBoot} {s s' : GuestState} {e : CpuStep}
    (hstep : s.step boot e = some s') : s'.core = s.core ∨ ∃ a, s.core.step a = some s'.core := by
  cases e with
  | guest regs mem =>
    simp only [step] at hstep
    split_ifs at hstep
    exact Or.inl (congrArg GuestState.core (Option.some.inj hstep)).symm
  | hypercall a out =>
    simp only [step] at hstep
    split_ifs at hstep
    obtain ⟨core, hcore, rfl⟩ := Option.map_eq_some_iff.mp hstep
    exact Or.inr ⟨a, hcore⟩
  | event a regs out =>
    simp only [step] at hstep
    split_ifs at hstep
    obtain ⟨core, hcore, rfl⟩ := Option.map_eq_some_iff.mp hstep
    refine Or.inr ⟨a, hcore.trans (congrArg some ?_)⟩
    unfold event
    split_ifs <;> rfl

end GuestState

/-- The guests that have been entered are where the processor can jump to. -/
def GuestState.CanTakeUp (s : GuestState) : Prop :=
  ∀ e ∈ s.core.entered, Canonical (s.regs e.2).rip

/-! ## What a step does to the log of the entries -/

namespace Core

section Entries

variable {s : Core} {entered : List (Call × UmiId)}

/-- The log of the entries was `entered`, and has it still, or the guest in control was entered. -/
def EntersFrom (entered : List (Call × UmiId)) (s : Core) : Prop :=
  s.entered = entered ∨ ∃ call id, s.entered = (call, id) :: entered ∧ s.guests = [⟨id, s.loads⟩]

/-- `Kick` enters no guest. -/
theorem kick_enters (h : s.entered = entered) (id : UmiId) :
    Outcome (s.kick id) (EntersFrom entered) fun _ => True :=
  kick_outcome (fun _ _ => trivial) (Or.inl h) fun _ _ _ => Or.inl h

/-- Nor does `Halt`. -/
theorem halt_enters (h : s.entered = entered) :
    Outcome s.halt (EntersFrom entered) fun _ => True :=
  halt_outcome (fun _ _ => trivial) (fun _ => trivial) (fun _ => trivial)
    (fun _ _ _ _ _ => Or.inl h) fun _ _ _ _ _ _ _ => Or.inl h

/-- Nor does the end of `Yield`. -/
theorem yieldTo_enters {next umi : UmiId} (h : s.entered = entered) (hloaded : s.status = .loaded)
    (hactive : s.activeUmi = some umi) :
    Outcome (s.yieldTo next) (EntersFrom entered) fun _ => True := by
  have hidle : { s with status := .idle }.entered = entered := h
  exact yieldTo_outcome hloaded hactive (fun _ => Or.inl h) (fun _ _ => halt_enters h)
    fun _ => kick_enters hidle umi

/-- Nor does `Yield`. -/
theorem yield_enters (h : s.entered = entered) :
    Outcome s.yield (EntersFrom entered) fun _ => True :=
  yield_outcome (fun _ _ => trivial) (fun _ => Or.inl h) (fun _ _ _ _ _ => Or.inl h)
    (fun _ _ _ _ _ _ _ _ => yieldTo_enters h rfl rfl) fun _ _ _ _ _ => yieldTo_enters h rfl rfl

/-- `process_gateway` enters at most one guest. -/
theorem processGateway_enters (h : s.entered = entered) (call : Call) :
    Outcome (s.processGateway (some call)) (EntersFrom entered) fun _ => True :=
  processGateway_outcome (fun _ _ => trivial)
    (fun id _ _ => Or.inr ⟨call, id, congrArg _ h, rfl⟩) fun _ _ _ _ _ => Or.inl h

/-- The hypercall `poll` enters none. -/
theorem poll_enters (h : s.entered = entered) (guest : UmiId) (ns now : ℕ) :
    Outcome (s.poll guest ns now) (EntersFrom entered) fun _ => True :=
  poll_outcome (fun _ _ => trivial) (Or.inl h) fun _ _ _ =>
    block_outcome (fun _ _ => trivial) (fun _ _ => trivial) (fun _ _ _ => trivial)
      (fun _ => Or.inl h) fun _ _ _ _ _ _ => Or.inl h

/-- An event enters at most one guest. -/
theorem dispatch_enters (h : s.entered = entered) (i : ℕ) :
    Outcome (s.dispatch i) (EntersFrom entered) fun _ => True := by
  unfold dispatch
  cases s.events[i]? with
  | none => exact Or.inl h
  | some e =>
    cases e with
    | yield => exact yield_enters h
    | halt => exact halt_enters h
    | processOutgoing writer pkt =>
      exact processOutgoing_outcome (fun _ _ => trivial) (Or.inl h) (fun _ => Or.inl h)
        fun _ _ _ _ _ => Or.inl h
    | activateContext ctx =>
      exact activateContext_outcome (fun _ => returnFromBlock_outcome (fun _ _ => trivial)
        (fun _ => trivial) fun _ => Or.inl h) (Or.inl h)
    | other => exact Or.inl h

/-- A step enters the guest in control, or none. -/
theorem exec_enters (s : Core) (a : Step) :
    Outcome (s.exec a) (EntersFrom s.entered) fun _ => True := by
  cases hcall : s.yieldCall a with
  | some t =>
    rw [exec_of_yieldCall hcall]
    have hentered : t.entered = s.entered :=
      of_yieldCall hcall (P := fun u => u.entered = s.entered) rfl (fun _ => rfl) (fun _ _ _ => rfl)
        (fun _ _ hu => hu) fun _ _ hu => hu
    exact yield_enters hentered
  | none =>
    cases a with
    | load id =>
      exact load_outcome (fun _ _ => trivial) (fun _ => Or.inl rfl) (fun _ _ _ _ => Or.inl rfl)
        fun _ => Or.inl rfl
    | run id =>
      exact run_outcome (fun _ _ => trivial) fun _ => Or.inr ⟨.run id, id, rfl, rfl⟩
    | start id => exact processGateway_enters rfl _
    | signalHalt id => exact signalHalt_outcome (fun _ _ => trivial) hcall fun _ => halt_enters rfl
    | signalYield id => exact signalYield_outcome (Or.inl rfl) (Or.inl rfl)
    | signalResume id =>
      exact signalResume_outcome (fun _ _ => trivial) hcall fun _ => kick_enters rfl id
    | yield => cases hcall
    | spawnHalt => exact Or.inl rfl
    | spawnOther => exact Or.inl rfl
    | processIncoming id payload =>
      exact processIncoming_outcome (fun _ _ => trivial) hcall (Or.inl rfl)
        fun _ _ _ _ => kick_enters rfl _
    | enqueuePacket id buf => exact Or.inl rfl
    | dispatch i => exact dispatch_enters rfl i
    | fire id now =>
      exact fire_outcome (fun _ _ _ _ => Or.inl rfl) fun _ _ _ _ _ => kick_enters rfl id
    | poll ns now => exact poll_enters rfl s.guest ns now
    | netwrite pkt => exact Or.inl rfl
    | netread len => exact netread_outcome (fun _ _ => trivial) fun _ _ _ => Or.inl rfl
    | halt => exact halt_enters rfl

/-- A hypercall enters no guest, and leaves control with the guest that makes it, or with none. -/
theorem hypercall_outcome {a : Step} (ha : a.isHypercall = true)
    (hguests : s.guests = [⟨s.guest, s.loads⟩]) :
    Outcome (s.exec a) (fun t => t.entered = s.entered ∧
      (t.guests = [] ∨ t.guests = [⟨s.guest, t.loads⟩])) fun _ => True := by
  cases a with
  | poll ns now =>
    refine poll_outcome (fun _ _ => trivial) ⟨rfl, Or.inr hguests⟩ fun _ _ _ => ?_
    refine block_outcome (fun _ _ => trivial) (fun _ _ => trivial) (fun _ _ _ => trivial)
      (fun _ => ⟨rfl, Or.inr rfl⟩) fun _ _ _ _ _ _ => ⟨rfl, Or.inl rfl⟩
  | netwrite pkt => exact ⟨rfl, Or.inr hguests⟩
  | netread len =>
    exact netread_outcome (fun _ _ => trivial) fun _ _ _ => ⟨rfl, Or.inr hguests⟩
  | halt =>
    exact halt_outcome (fun _ _ => trivial) (fun _ => trivial) (fun _ => trivial)
      (fun _ _ _ _ _ => ⟨rfl, Or.inr hguests⟩) fun _ _ _ _ _ _ _ => ⟨rfl, Or.inl rfl⟩
  | _ => cases ha

end Entries

/-- A guest in control is that of the slot. -/
theorem InControl.guest_eq {s : Core} (h : s.InControl) (hguests : s.guests ≠ []) :
    s.guests = [⟨s.guest, s.loads⟩] ∧ s.activeUmi = some s.guest ∧ s.activeInstanceId = s.guest := by
  obtain ⟨g, gs, hg⟩ := List.exists_cons_of_ne_nil hguests
  obtain ⟨hone, hactive, -⟩ := h.of_guests hg
  have hguest : s.guest = g.id := by rw [guest, hg]
  rw [hguest, activeInstanceId, hactive]
  exact ⟨hone, rfl, rfl⟩

end Core

namespace CpuState

variable (boot : CpuBoot)

/-- The registers of a guest that is not in control. -/
def saved (s : CpuState) (id : UmiId) : UserRegisters where
  rip := readWord (s.mem id) (s.fnStack id + boot.frameSize + 8)
  rsp := s.fnStack id + boot.frameSize + 8 + 8
  rflags := sysretFlags (readWord (s.mem id) (s.fnStack id + boot.frameSize))

/-- What the machine does for its guests: the one in control has the registers of the processor. -/
def view (s : CpuState) : GuestState where
  core := s.core
  regs := if s.core.guests.isEmpty then s.saved boot
    else Function.update (s.saved boot) s.core.guest (.ofRegs s.regs)
  entryRsp := s.callerRestoreRsp
  mem := s.mem
  handled := s.handled

/-- A hypercall does not write to what the call path has saved on the stack of its guest: the sixteen
bytes below the stack pointer. -/
def KeepsFrame (s : CpuState) : CpuStep → Prop
  | .guest _ _ => True
  | .hypercall _ out => ∀ x, Within (s.regs.rsp - 8 - 8) 16 x → out x = none
  | .event a _ out => ∀ core, s.core.step a = some core → ∀ id, core.activeUmi = some id →
      ∀ x, Within (s.fnStack id + boot.frameSize) 16 x → out x = none

/-- The guest in control runs in user mode, with the segments of the user. -/
def InUserMode (s : CpuState) : Prop :=
  s.core.guests ≠ [] → s.regs.cs = userCs ∧ s.regs.ss = userSs

/-- The invariant of the machine. -/
structure Sound (s : CpuState) : Prop where
  /-- The invariant of the slot. -/
  slot : Core.SlotInvariant [] s.core
  /-- The invariant of the guests in control. -/
  control : s.core.ControlInvariant
  /-- The invariant of the frames. -/
  frames : Core.FrameInvariant (fun _ => True) s.core
  /-- The guest in control is in user mode. -/
  user : s.InUserMode
  /-- The guests can be taken up. -/
  canonical : (s.view boot).CanTakeUp

section Steps

variable {boot} {s : CpuState} {id : UmiId} {a : Step} {out : Output}

/-- The words that the call path has pushed are read back, unless they are overwritten. -/
theorem readWord_callFrame (r : UserRegisters) (mem : X64.Memory)
    (hout : ∀ x, Within (r.rsp - 8 - 8) 16 x → out x = none) :
    readWord (out.over (r.callFrame mem)) (r.rsp - 8 - 8) = r.rflags ∧
      readWord (out.over (r.callFrame mem)) (r.rsp - 8 - 8 + 8) = r.rip := by
  have hover : ∀ x, Within (r.rsp - 8 - 8) 16 x → out.over (r.callFrame mem) x = r.callFrame mem x :=
    fun x hx => by rw [Output.over, hout x hx, Option.getD_none]
  constructor
  · rw [readWord_congr fun x hx => hover x (within_sixteen hx)]
    exact readWord_writeWord
  · have hcongr : ∀ x, Within (r.rsp - 8 - 8 + 8) 8 x →
        out.over (r.callFrame mem) x = writeWord mem (r.rsp - 8 - 8 + 8) r.rip x := by
      intro x hx
      obtain ⟨hwithin, hnot⟩ := within_add_eight hx
      rw [hover x hwithin, UserRegisters.callFrame, writeWord_of_not_within hnot, sub_add_cancel]
    rw [readWord_congr hcongr]
    exact readWord_writeWord

/-- The end of a hypercall gives the guest in the slot its registers back. -/
theorem sysCallReturn_eq (hactive : s.core.activeUmi = some id) (hcpl : s.regs.cpl = 0)
    (hrip : Canonical (s.saved boot id).rip) :
    ∃ regs, s.sysCallReturn boot = some { s with regs := regs } ∧
      UserRegisters.ofRegs regs = s.saved boot id ∧ regs.cs = userCs ∧ regs.ss = userSs := by
  have hslot : s.slotMem = s.mem id := by rw [slotMem, Core.activeInstanceId, hactive]; rfl
  have hsce : (boot.msrs ia32Efer).getLsbD 0 = true := sce_enableSyscallSysret _ _
  unfold sysCallReturn restoreFnStackPtr
  rw [hactive, hslot]
  simp only [Option.map_some, pop, bind, Option.bind]
  have hsysret := sysret_of_canonical (r := { s.regs with
    rsp := s.fnStack id + boot.frameSize + 8 + 8
    rcx := readWord (s.mem id) (s.fnStack id + boot.frameSize + 8)
    r11 := readWord (s.mem id) (s.fnStack id + boot.frameSize) }) hsce hcpl hrip
  rw [hsysret]
  refine ⟨_, rfl, rfl, ?_, ?_⟩
  · simp only [CpuBoot.msrs, star_enableSyscallSysret]
    decide
  · simp only [CpuBoot.msrs, star_enableSyscallSysret]
    decide

/-- The state in which a hypercall of the instance `id` has been handled; the scheduler is then
`core`. -/
def called (s : CpuState) (boot : CpuBoot) (id : UmiId) (core : Core) (regs : Registers)
    (out : Output) : CpuState where
  core := core
  regs := regs
  fnStack := Function.update s.fnStack id (s.regs.rsp - 8 - 8 - boot.frameSize)
  callerRestoreRsp := s.callerRestoreRsp
  mem := Function.update s.mem id (out.over ((UserRegisters.ofRegs s.regs).callFrame (s.mem id)))
  handled := (s.core.guest, s.callerRestoreRsp id) :: s.handled

/-- The call path does not fault. -/
theorem sysCall_eq (boot : CpuBoot) (hactive : s.core.activeUmi = some id) (a : Step) (out : Output) :
    ∃ regs, regs.cpl = 0 ∧ s.sysCall boot a out = (s.core.step a).bind fun core =>
      if core.guests.isEmpty then some (s.called boot id core regs out)
      else (s.called boot id core regs out).sysCallReturn boot := by
  obtain ⟨q, hq⟩ : ∃ q, X64.syscall boot.msrs s.regs = some q :=
    ⟨_, syscall_eq_some.mpr ⟨sce_enableSyscallSysret _ _, rfl⟩⟩
  have hcpl := cpl_of_syscall hq
  obtain ⟨-, rfl⟩ := syscall_eq_some.mp hq
  have hid : s.core.activeInstanceId = id := by rw [Core.activeInstanceId, hactive]; rfl
  have hrip : boot.msrs ia32Lstar = boot.syscallPath := lstar_enableSyscallSysret _ _
  refine ⟨{ s.regs with
    rip := boot.msrs ia32Lstar
    rsp := s.callerRestoreRsp id
    rflags := s.regs.rflags &&& ~~~(boot.msrs ia32Fmask)
    rcx := s.regs.rip
    r11 := 0
    cs := (boot.msrs ia32Star).extractLsb' 32 16 &&& 0xFFFC
    ss := 0 }, hcpl, ?_⟩
  unfold sysCall
  rw [hq]
  simp only [Option.bind_eq_bind, Option.bind_some, hrip, ne_eq, not_true_eq_false, if_false,
    push, sysCallHandler, saveFnStackPtr, getKernStackPtr, setSlotMem, slotMem, hid, hactive,
    Option.map_some, Function.update_self, Function.update_idem, Option.bind_assoc]
  rfl

/-- The guest in control sees the registers of the processor, and the others what is saved. -/
theorem view_regs_of_guest {n : ℕ} (hguests : s.core.guests = [⟨id, n⟩]) :
    (s.view boot).regs = Function.update (s.saved boot) id (.ofRegs s.regs) := by
  simp [view, hguests, Core.guest]

/-- The registers of the other guests do not change with the memory in the slot. -/
theorem update_saved {t : CpuState} (hmem : ∀ j ≠ id, t.mem j = s.mem j)
    (hstack : ∀ j ≠ id, t.fnStack j = s.fnStack j) (r : UserRegisters) :
    Function.update (t.saved boot) id r = Function.update (s.saved boot) id r := by
  funext j
  by_cases hj : j = id
  · rw [hj, Function.update_self, Function.update_self]
  · rw [Function.update_of_ne hj, Function.update_of_ne hj, saved, saved, hmem j hj, hstack j hj]

/-- An instance that has been entered is in the log. -/
theorem exists_entry {core : Core} (hframes : Core.FrameInvariant (fun _ => True) core)
    (hid : core.Entered id) : ∃ e ∈ core.entered, e.2 = id := by
  obtain ⟨call, hcall⟩ := Option.ne_none_iff_exists'.mp hid
  exact ⟨(call, id), Core.lastEntry_eq_some ((hframes.saved id).symm.trans hcall), rfl⟩

/-- A guest that has been entered can be taken up. -/
theorem Sound.canonical_of_entered (h : s.Sound boot) (hid : s.core.Entered id) :
    Canonical ((s.view boot).regs id).rip := by
  obtain ⟨e, he, rfl⟩ := exists_entry h.frames hid
  exact h.canonical e he

/-- What the machine does is what its guests see, and they are in user mode. -/
def Matches (boot : CpuBoot) (o : Option CpuState) (g : Option GuestState) : Prop :=
  o.map (view boot) = g ∧ ∀ t, o = some t → t.InUserMode

/-- Both machines may be without a next state. -/
theorem matches_none : Matches boot none none :=
  ⟨rfl, fun _ h => by cases h⟩

/-- A state in user mode is what its view is. -/
theorem matches_some {t : CpuState} (huser : t.InUserMode) :
    Matches boot (some t) (some (t.view boot)) :=
  ⟨rfl, fun _ h => Option.some.inj h ▸ huser⟩

/-- So it is, if its view is computed first. -/
theorem matches_of_view {t : CpuState} {g : GuestState} (hview : t.view boot = g)
    (huser : t.InUserMode) : Matches boot (some t) (some g) :=
  hview ▸ matches_some huser

/-- The invariants of the scheduler are kept. -/
theorem Sound.core_step (h : s.Sound boot) {core : Core} (hcore : s.core.step a = some core) :
    Core.SlotInvariant [] core ∧ core.ControlInvariant ∧
      Core.FrameInvariant (fun _ => True) core := by
  obtain ⟨henabled, hexec⟩ := Core.step_eq_some.mp hcore
  have hframes := h.frames.exec_outcome h.slot h.control henabled (fun _ _ => trivial)
    fun _ _ _ _ _ => trivial
  exact ⟨h.slot.step hcore, h.control.step h.slot hcore, (hframes.of_eq_ok hexec).1⟩

/-- The guest in control runs. -/
theorem Sound.guest_matches (h : s.Sound boot) (regs : Registers) (mem : X64.Memory) :
    Matches boot (s.step boot (.guest regs mem)) ((s.view boot).step boot (.guest regs mem)) := by
  change Matches boot
    (if s.core.guests.isEmpty ∨ ¬ Canonical regs.rip then none else some (s.guestTo regs mem))
    (if s.core.guests.isEmpty ∨ ¬ Canonical regs.rip then none
      else some ((s.view boot).guestTo regs mem))
  split_ifs with hrefused
  · exact matches_none
  have hguests : s.core.guests ≠ [] := fun hnil => hrefused (Or.inl (by rw [hnil]; rfl))
  obtain ⟨hone, -, hid⟩ := h.control.inControl.guest_eq hguests
  have hmem : (s.guestTo regs mem).mem = Function.update s.mem s.core.guest mem := by
    rw [← hid]
    rfl
  refine matches_of_view (GuestState.ext rfl ?_ rfl hmem rfl) fun _ => h.user hguests
  have hregs : ((s.view boot).guestTo regs mem).regs =
      Function.update (s.saved boot) s.core.guest (.ofRegs regs) := by
    change Function.update (s.view boot).regs s.core.guest _ = _
    rw [view_regs_of_guest hone, Function.update_idem]
  rw [hregs, view_regs_of_guest (s := s.guestTo regs mem) hone]
  have hstack : ∀ j ≠ s.core.guest, (s.guestTo regs mem).fnStack j = s.fnStack j := fun _ _ => rfl
  refine update_saved (fun j hj => ?_) hstack (.ofRegs regs)
  rw [hmem, Function.update_of_ne hj]

/-- The registers of the guests once a hypercall has been handled: its own have been saved. -/
theorem saved_called {core : Core} {regs : Registers}
    (hout : ∀ x, Within (s.regs.rsp - 8 - 8) 16 x → out x = none) :
    (s.called boot id core regs out).saved boot =
      Function.update (s.saved boot) id (UserRegisters.ofRegs s.regs).afterCall := by
  have hself : (s.called boot id core regs out).saved boot id =
      (UserRegisters.ofRegs s.regs).afterCall := by
    obtain ⟨hflags, hrip⟩ := readWord_callFrame (.ofRegs s.regs) (s.mem id) hout
    rw [sub_add_cancel] at hrip
    ext1
    · simp only [saved, called, Function.update_self, sub_add_cancel]
      exact hrip
    · simp only [saved, called, Function.update_self, sub_add_cancel]
      rfl
    · simp only [saved, called, Function.update_self, sub_add_cancel]
      exact congrArg sysretFlags hflags
  rw [← hself, ← update_saved (s := s) (t := s.called boot id core regs out),
    Function.update_eq_self]
  · intro j hj
    exact Function.update_of_ne hj ..
  · intro j hj
    exact Function.update_of_ne hj ..

/-- What the state is for the guests when none is in control. -/
def suspended (boot : CpuBoot) (s : CpuState) : GuestState where
  core := s.core
  regs := s.saved boot
  entryRsp := s.callerRestoreRsp
  mem := s.mem
  handled := s.handled

/-- When no guest is in control, all see what is saved. -/
theorem view_of_empty (hguests : s.core.guests = []) : s.view boot = s.suspended boot := by
  simp [view, suspended, hguests]

/-- So the state is what its guests see suspended. -/
theorem suspended_matches (hguests : s.core.guests = []) :
    Matches boot (some s) (some (s.suspended boot)) :=
  matches_of_view (view_of_empty hguests) fun hne => absurd hguests hne

/-- When the guest in the slot is given control, it has its registers back. -/
theorem sysCallReturn_matches (hcontrol : s.core.ControlInvariant) (hcpl : s.regs.cpl = 0)
    (hrip : s.core.guests ≠ [] → Canonical (s.saved boot s.core.guest).rip) :
    Matches boot (if s.core.guests.isEmpty then some s else s.sysCallReturn boot)
      (some (s.suspended boot)) := by
  by_cases hguests : s.core.guests = []
  · rw [if_pos (by rw [hguests]; rfl)]
    exact suspended_matches hguests
  rw [if_neg (by simpa using hguests)]
  obtain ⟨hone, hactive, -⟩ := hcontrol.inControl.guest_eq hguests
  obtain ⟨regs, hreturn, hregs, hsegments⟩ := sysCallReturn_eq hactive hcpl (hrip hguests)
  rw [hreturn]
  refine matches_of_view (GuestState.ext rfl ?_ rfl rfl rfl) fun _ => hsegments
  rw [view_regs_of_guest (s := { s with regs := regs }) hone, hregs]
  exact Function.update_eq_self ..

/-- No hypercall is handled that the scheduler does not allow. -/
theorem sysCall_none (hcore : s.core.step a = none) : s.sysCall boot a out = none := by
  cases hactive : s.core.activeUmi with
  | none =>
    simp [sysCall, sysCallHandler, saveFnStackPtr, setSlotMem, hactive]
  | some id =>
    obtain ⟨regs, -, hcall⟩ := sysCall_eq boot hactive a out
    rw [hcall, hcore]
    rfl

/-- The guest in control makes a hypercall. -/
theorem Sound.hypercall_matches (h : s.Sound boot) (hkeeps : s.KeepsFrame boot (.hypercall a out)) :
    Matches boot (s.step boot (.hypercall a out)) ((s.view boot).step boot (.hypercall a out)) := by
  change Matches boot (if a.isHypercall then s.sysCall boot a out else none)
    (if a.isHypercall then (s.core.step a).map fun core => (s.view boot).call core out else none)
  split_ifs with ha
  swap
  · exact matches_none
  cases hcore : s.core.step a with
  | none =>
    rw [sysCall_none hcore]
    exact matches_none
  | some core =>
    obtain ⟨henabled, hexec⟩ := Core.step_eq_some.mp hcore
    have hguests : s.core.guests ≠ [] := by
      obtain ⟨g, gs, hg⟩ := Core.guests_of_enabled_hypercall henabled ha
      exact hg ▸ List.cons_ne_nil g gs
    obtain ⟨hone, hactive, -⟩ := h.control.inControl.guest_eq hguests
    obtain ⟨hentered, hafter⟩ := (Core.hypercall_outcome ha hone).of_eq_ok hexec
    obtain ⟨regs, hcpl, hcall⟩ := sysCall_eq boot hactive a out
    obtain ⟨t, ht⟩ : ∃ t, t = s.called boot s.core.guest core regs out := ⟨_, rfl⟩
    have hregs : ((s.view boot).call core out).regs =
        Function.update (s.saved boot) s.core.guest (UserRegisters.ofRegs s.regs).afterCall := by
      change Function.update (s.view boot).regs s.core.guest
        ((s.view boot).regs s.core.guest).afterCall = _
      rw [view_regs_of_guest hone, Function.update_self, Function.update_idem]
    have hmem : ((s.view boot).call core out).mem = t.mem := by
      change Function.update s.mem s.core.guest
        (out.over (((s.view boot).regs s.core.guest).callFrame (s.mem s.core.guest))) = _
      rw [view_regs_of_guest hone, Function.update_self, ht]
      rfl
    have hsaved : t.saved boot = ((s.view boot).call core out).regs := by
      rw [hregs, ht]
      exact saved_called hkeeps
    have hcontrol := h.control.step h.slot hcore
    have hrip : core.guests ≠ [] → Canonical (t.saved boot core.guest).rip := by
      intro hne
      have hguest : core.guest = s.core.guest := by
        rw [Core.guest, hafter.resolve_left hne]
      have hcanonical := h.canonical_of_entered (h.frames.guests ⟨s.core.guest, s.core.loads⟩
        (hone ▸ List.mem_singleton_self _))
      rw [view_regs_of_guest hone, Function.update_self] at hcanonical
      rw [hguest, hsaved, hregs, Function.update_self]
      exact hcanonical
    have hsuspended : t.suspended boot = (s.view boot).call core out := by
      refine GuestState.ext ?_ hsaved ?_ hmem.symm ?_ <;> rw [ht] <;> rfl
    rw [hcall, hcore, Option.bind_some, Option.map_some, ← hsuspended]
    subst ht
    exact sysCallReturn_matches (s := s.called boot s.core.guest core regs out) hcontrol hcpl hrip

/-- A hypercall returns to the guest in the slot, after it has written `out`. -/
theorem resume_matches (hcontrol : s.core.ControlInvariant) (hguests : s.core.guests ≠ [])
    (hcpl : s.regs.cpl = 0) (hrip : Canonical (s.saved boot s.core.guest).rip)
    (hout : ∀ x, Within (s.fnStack s.core.guest + boot.frameSize) 16 x → out x = none) :
    Matches boot ((s.setSlotMem (out.over s.slotMem)).sysCallReturn boot)
      (some { s.suspended boot with
        mem := Function.update s.mem s.core.guest (out.over (s.mem s.core.guest)) }) := by
  obtain ⟨u, hu⟩ : ∃ u, u = s.setSlotMem (out.over s.slotMem) := ⟨_, rfl⟩
  have hmem : u.mem = Function.update s.mem s.core.guest (out.over (s.mem s.core.guest)) := by
    rw [hu, setSlotMem, slotMem, (hcontrol.inControl.guest_eq hguests).2.2]
  have hsaved : u.saved boot = s.saved boot := by
    have hself : u.saved boot s.core.guest = s.saved boot s.core.guest := by
      have hfnStack : u.fnStack = s.fnStack := by rw [hu]; rfl
      have hover : ∀ x, Within (s.fnStack s.core.guest + boot.frameSize) 16 x →
          u.mem s.core.guest x = s.mem s.core.guest x := by
        intro x hx
        rw [hmem, Function.update_self, Output.over, hout x hx, Option.getD_none]
      rw [saved, saved, hfnStack, readWord_congr fun x hx => hover x (within_sixteen hx),
        readWord_congr fun x hx => hover x (within_add_eight hx).1]
    rw [← Function.update_eq_self s.core.guest (u.saved boot), update_saved (s := s) (t := u),
      hself, Function.update_eq_self]
    · intro j hj
      rw [hmem, Function.update_of_ne hj]
    · intro j _
      rw [hu]
      rfl
  have hcore : u.core = s.core := by rw [hu]; rfl
  have hucpl : u.regs.cpl = 0 := by
    rw [hu]
    exact hcpl
  have hurip : Canonical (u.saved boot u.core.guest).rip := by
    rw [hsaved, hcore]
    exact hrip
  have hmatches := sysCallReturn_matches (hcore ▸ hcontrol) hucpl fun _ => hurip
  rw [hcore, if_neg (by simpa using hguests)] at hmatches
  have hsuspended : u.suspended boot = { s.suspended boot with
      mem := Function.update s.mem s.core.guest (out.over (s.mem s.core.guest)) } :=
    GuestState.ext hcore hsaved (by rw [hu]; rfl) hmem (by rw [hu]; rfl)
  rw [← hu, ← hsuspended]
  exact hmatches

/-- The gateway enters the guest in the slot. -/
theorem gateway_matches (hcontrol : s.core.ControlInvariant) (hguests : s.core.guests ≠ []) :
    Matches boot (s.processGateway boot) (some { s.suspended boot with
      regs := Function.update (s.saved boot) s.core.guest (.ofRegs (boot.ef s.core.guest))
      entryRsp := Function.update s.callerRestoreRsp s.core.guest s.regs.rsp }) := by
  obtain ⟨hone, hactive, -⟩ := hcontrol.inControl.guest_eq hguests
  have hiret := iret_of_loads (r := { boot.ef s.core.guest with ss := userSs, cs := userCs })
    (loadsSegments_addUserSegments boot.powerOnGdt rfl rfl) (boot.canonical_ef s.core.guest)
  unfold processGateway
  rw [hactive]
  simp only [CpuBoot.gdt, hiret, Option.bind_eq_bind, Option.bind_some]
  refine matches_of_view (GuestState.ext rfl ?_ rfl rfl rfl) fun _ => ⟨rfl, rfl⟩
  exact view_regs_of_guest hone

/-- The host does something. -/
theorem Sound.event_matches (h : s.Sound boot) {regs : Registers}
    (hkeeps : s.KeepsFrame boot (.event a regs out)) :
    Matches boot (s.step boot (.event a regs out)) ((s.view boot).step boot (.event a regs out)) := by
  change Matches boot (if a.isHypercall ∨ regs.cpl ≠ 0 then none else
      (s.core.step a).bind fun core => { s with regs := regs }.afterStep boot core out)
    (if a.isHypercall ∨ regs.cpl ≠ 0 then none else
      (s.core.step a).map fun core => (s.view boot).event boot core regs.rsp out)
  split_ifs with hrefused
  · exact matches_none
  obtain ⟨ha, hcpl⟩ := not_or.mp hrefused
  cases hcore : s.core.step a with
  | none => exact matches_none
  | some core =>
    obtain ⟨henabled, hexec⟩ := Core.step_eq_some.mp hcore
    have hguests : s.core.guests = [] := (Core.guests_of_enabled henabled (by simpa using ha)).1
    obtain ⟨-, hcontrol, hframes⟩ := h.core_step hcore
    have hview : s.view boot = s.suspended boot := view_of_empty hguests
    change Matches boot ({ s with regs := regs }.afterStep boot core out)
      (some ((s.view boot).event boot core regs.rsp out))
    rw [hview, afterStep, GuestState.event]
    by_cases hnone : core.guests = []
    · rw [if_pos (by rw [hnone]; rfl), if_pos (by rw [hnone]; rfl)]
      exact suspended_matches (s := { s with regs := regs, core := core }) hnone
    have hbusy : ¬ core.guests.isEmpty = true := by simpa using hnone
    rw [if_neg hbusy, if_neg hbusy]
    by_cases hentered : core.entered = s.core.entered
    · obtain ⟨hone, hactive, -⟩ := hcontrol.inControl.guest_eq hnone
      obtain ⟨e, he, hguest⟩ := exists_entry hframes
        (hframes.guests ⟨core.guest, core.loads⟩ (hone ▸ List.mem_singleton_self _))
      have hrip := h.canonical e (hentered ▸ he)
      rw [hview, hguest] at hrip
      rw [if_pos hentered, if_pos (show core.entered = (s.suspended boot).core.entered from hentered)]
      exact resume_matches (s := { s with regs := regs, core := core }) hcontrol hnone
        (not_not.mp hcpl) hrip (hkeeps core hcore core.guest hactive)
    · rw [if_neg hentered,
        if_neg (show ¬ core.entered = (s.suspended boot).core.entered from hentered)]
      exact gateway_matches (s := { s with regs := regs, core := core }) hcontrol hnone

/-- The guests that have been entered can be taken up after a step. -/
theorem Sound.canTakeUp (h : s.Sound boot) {e : CpuStep} {g : GuestState}
    (hstep : (s.view boot).step boot e = some g) : g.CanTakeUp := by
  cases e with
  | guest regs mem =>
    change (if s.core.guests.isEmpty ∨ ¬ Canonical regs.rip then none
      else some ((s.view boot).guestTo regs mem)) = some g at hstep
    split_ifs at hstep with hrefused
    obtain rfl := Option.some.inj hstep
    intro e he
    change Canonical (Function.update (s.view boot).regs s.core.guest (.ofRegs regs) e.2).rip
    by_cases hid : e.2 = s.core.guest
    · rw [hid, Function.update_self]
      exact not_not.mp fun hnot => hrefused (Or.inr hnot)
    · rw [Function.update_of_ne hid]
      exact h.canonical e he
  | hypercall a out =>
    change (if a.isHypercall then (s.core.step a).map fun core => (s.view boot).call core out
      else none) = some g at hstep
    split_ifs at hstep with ha
    obtain ⟨core, hcore, rfl⟩ := Option.map_eq_some_iff.mp hstep
    obtain ⟨henabled, hexec⟩ := Core.step_eq_some.mp hcore
    obtain ⟨_, _, hg⟩ := Core.guests_of_enabled_hypercall henabled ha
    obtain ⟨hone, -, -⟩ := h.control.inControl.guest_eq (hg ▸ List.cons_ne_nil _ _)
    obtain ⟨hentered, -⟩ := (Core.hypercall_outcome ha hone).of_eq_ok hexec
    intro e he
    have hrip : (((s.view boot).call core out).regs e.2).rip = ((s.view boot).regs e.2).rip := by
      change (Function.update (s.view boot).regs s.core.guest
        ((s.view boot).regs s.core.guest).afterCall e.2).rip = _
      by_cases hid : e.2 = s.core.guest
      · rw [hid, Function.update_self]
        rfl
      · rw [Function.update_of_ne hid]
    rw [hrip]
    exact h.canonical e (hentered ▸ he)
  | event a regs out =>
    change (if a.isHypercall ∨ regs.cpl ≠ 0 then none
      else (s.core.step a).map fun core => (s.view boot).event boot core regs.rsp out) = some g at hstep
    split_ifs at hstep
    obtain ⟨core, hcore, rfl⟩ := Option.map_eq_some_iff.mp hstep
    have henters := (Core.exec_enters s.core a).of_eq_ok (Core.step_eq_some.mp hcore).2
    rw [GuestState.event]
    by_cases hentered : core.entered = s.core.entered
    · have hold : ∀ e ∈ core.entered, Canonical ((s.view boot).regs e.2).rip :=
        hentered ▸ h.canonical
      split_ifs with hnone
      · exact hold
      · exact hold
      · exact absurd hentered ‹_›
    · obtain ⟨call, id, hcons, hone⟩ := henters.resolve_left hentered
      have hguest : core.guest = id := by rw [Core.guest, hone]
      rw [if_neg (by simp [hone]),
        if_neg (show ¬ core.entered = (s.view boot).core.entered from hentered)]
      intro e he
      change Canonical (Function.update (s.view boot).regs core.guest
        (.ofRegs (boot.ef core.guest)) e.2).rip
      rw [hguest]
      by_cases hid : e.2 = id
      · rw [hid, Function.update_self]
        exact boot.canonical_ef id
      · rw [Function.update_of_ne hid]
        refine h.canonical e ((List.mem_cons.mp (hcons ▸ he)).resolve_left fun heq => hid ?_)
        rw [heq]

/-- The machine does what its guests see. -/
theorem Sound.step_matches (h : s.Sound boot) {e : CpuStep} (hkeeps : s.KeepsFrame boot e) :
    Matches boot (s.step boot e) ((s.view boot).step boot e) := by
  cases e with
  | guest regs mem => exact h.guest_matches regs mem
  | hypercall a out => exact h.hypercall_matches hkeeps
  | event a regs out => exact h.event_matches hkeeps

/-- Every step that keeps the saved frames keeps the invariant. -/
theorem Sound.step (h : s.Sound boot) {e : CpuStep} (hkeeps : s.KeepsFrame boot e) {t : CpuState}
    (hstep : s.step boot e = some t) : t.Sound boot := by
  obtain ⟨hview, huser⟩ := h.step_matches hkeeps
  rw [hstep] at hview
  have hcore : Core.SlotInvariant [] t.core ∧ t.core.ControlInvariant ∧
      Core.FrameInvariant (fun _ => True) t.core := by
    rcases GuestState.core_step hview.symm with hsame | ⟨a, hcore⟩
    · change t.core = s.core at hsame
      rw [hsame]
      exact ⟨h.slot, h.control, h.frames⟩
    · exact h.core_step hcore
  exact ⟨hcore.1, hcore.2.1, hcore.2.2, huser t hstep, h.canTakeUp hview.symm⟩

/-- It holds after boot. -/
theorem sound_init (boot : CpuBoot) : (init boot).Sound boot where
  slot := Core.slotInvariant_init
  control := Core.controlInvariant_init
  frames := Core.frameInvariant_init
  user := fun hne => absurd rfl hne
  canonical := fun _ he => absurd he List.not_mem_nil

end Steps

/-- A hypercall is one instruction of its guest, whatever the other guests and the host do before it
returns: the machine does in every run what the one does whose guests have registers of their own,
and the guest in control is always in user mode, in segments that the descriptors allow. -/
theorem hypercalls_return (boot : CpuBoot) {steps : List CpuStep}
    (hkeeps : AllSteps (step boot) (KeepsFrame boot) (init boot) steps) :
    (run (step boot) (init boot) steps).map (view boot) =
        run (GuestState.step boot) ((init boot).view boot) steps ∧
      AllStates (step boot) (fun s => s.core.guests ≠ [] →
        s.regs.cpl = 3 ∧ LoadsSegments boot.gdt s.regs) (init boot) steps := by
  constructor
  · exact map_run_eq_run (fun s e t hkeeps h hstep => h.step hkeeps hstep)
      (fun s e hkeeps h => (h.step_matches hkeeps).1) (sound_init boot) hkeeps
  · refine allStates_of_invariant (fun s h hne => ?_)
      (fun s e t hkeeps h hstep => h.step hkeeps hstep) (sound_init boot) hkeeps
    obtain ⟨hcs, hss⟩ := h.user hne
    refine ⟨?_, loadsSegments_addUserSegments boot.powerOnGdt hcs hss⟩
    rw [Registers.cpl, hcs]
    decide

/-! ## A hypercall that blocks -/

/-- A processor whose registers are clear, `syscall_path` at 4096, and guests that start at the first
address of the slot. -/
def clearBoot : CpuBoot where
  powerOnMsrs := fun _ => 0
  powerOnGdt := fun _ => 0
  regs := ⟨0, 0, 0, 0, 0, 0, 0⟩
  syscallPath := 4096
  frameSize := 24
  ef := fun _ => ⟨0xFFFFC00000000000, 0xFFFFC07FFFFFFFF0, 0x202, 0, 0, 8, 0⟩
  canonical_ef := fun _ => by decide
  fnStack := fun _ => 0
  callerRestoreRsp := fun _ => 0
  mem := fun _ _ => 0

/-- Guest 2 is started, blocks in a hypercall, and is resumed. -/
def blocking : List CpuStep :=
  let kernel : Registers := ⟨0, 8192, 0, 0, 0, 8, 0⟩
  [.event (.load 2) kernel fun _ => none, .event (.start 2) kernel fun _ => none,
    .hypercall (.poll 1000 0) fun _ => none, .event (.signalResume 2) kernel fun _ => none,
    .event (.dispatch 0) kernel fun _ => none]

/-- The run keeps the saved frames. -/
theorem keepsFrame_blocking :
    AllSteps (step clearBoot) (KeepsFrame clearBoot) (init clearBoot) blocking := by
  refine allSteps_of_mem fun e he s => ?_
  simp only [blocking, List.mem_cons, List.not_mem_nil, or_false] at he
  rcases he with rfl | rfl | rfl | rfl | rfl
  · exact fun _ _ _ _ _ _ => rfl
  · exact fun _ _ _ _ _ _ => rfl
  · exact fun _ _ => rfl
  · exact fun _ _ _ _ _ _ => rfl
  · exact fun _ _ _ _ _ _ => rfl

/-- It has its registers back, and is in user mode. -/
theorem hypercalls_return_blocking : ∃ s, run (step clearBoot) (init clearBoot) blocking = some s ∧
    UserRegisters.ofRegs s.regs = (UserRegisters.ofRegs (clearBoot.ef 2)).afterCall ∧
      s.regs.cpl = 3 := by
  obtain ⟨hview, huser⟩ := hypercalls_return clearBoot keepsFrame_blocking
  obtain ⟨g, hg, hguests, hregs⟩ : ∃ g, run (GuestState.step clearBoot)
      ((init clearBoot).view clearBoot) blocking = some g ∧ g.core.guests = [⟨2, 1⟩] ∧
      g.regs 2 = (UserRegisters.ofRegs (clearBoot.ef 2)).afterCall := ⟨_, rfl, rfl, rfl⟩
  obtain ⟨s, hs, rfl⟩ := Option.map_eq_some_iff.mp (hview.trans hg)
  refine ⟨s, hs, ?_, (huser.last hs (by rw [show s.core.guests = _ from hguests]; simp)).1⟩
  rw [← hregs, view_regs_of_guest hguests, Function.update_self]

end CpuState

end Umm
