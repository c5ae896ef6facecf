import Umm.Basic
import Umm.Foundations.Run
import Umm.Foundations.Tabulate
import Umm.Memory.Region
import Umm.PageTable.Copy

/-!
# The memory of all instances

The machine of this file has all cores at once: their slots, the state vectors and instances that
exist, and the physical memory they share.  A step creates, loads, unloads or destroys one of them,
takes a checkpoint, or is a guest access, which faults at most once and is then retried.  What the
scheduler does between these steps does not touch memory, and any order of them is a run.

Guests access memory by reads and writes.  The fetch of an instruction is no step: on a page that is not
mapped its fault is handled like that of a read, and on a page that is mapped and may be executed it does
what a read does.  What a fetch does on a page that is mapped and may not be executed is the subject of
`Umm.Memory.Faults`.

Fields whose docstring says "log" are not in the source: they record what the results of this
directory speak about.
-/

namespace Umm

open Foundations

/-- The identifier of a state vector or an instance. -/
abbrev SvId := ℕ

/-! ## Page-table handlers -/

namespace UmPth

variable {A : Allocator Pfn}

/-- `UmPth::operator=`: the table of a copy of a handler with the table `rhs`. -/
def copy (rhs : Option Pfn) (h : PhysMem A) : Except Stop (Option Pfn × PhysMem A) :=
  match rhs with
  | none => .ok (none, h)
  | some r => UmPgTblMgmt.walkPgTblCOW r none pdptLevel h

/-- `copyInPages` of a handler without a table.  `countValidPagesLamb` then walks the copy, which must
be there. -/
def copyInPages (srcRoot : Option Pfn) (h : PhysMem A) : Except Stop (Pfn × PhysMem A) :=
  match srcRoot with
  | none => .error .nullDeref
  | some r => do
    let (root, h) ← UmPgTblMgmt.walkPgTblCopyDirtyCOW r none pdptLevel h
    match root with
    | none => .error .nullDeref
    | some root => .ok (root, h)

/-- `~UmPth`. -/
def destruct (root : Option Pfn) (h : PhysMem A) : PhysMem A :=
  match root with
  | none => h
  | some r => UmPgTblMgmt.freePageTableLamb r pdptLevel h

end UmPth

/-! ## The state -/

/-- What was in the slot when an instance was unloaded. -/
structure UnloadLog where
  /-- The table of the slot. -/
  root : Option Pfn
  /-- The leaf at each path. -/
  leaf : (ℕ → Key) → Option SimplePte

/-- A `UmSV`, or a `UmInstance` with its `sv_`. -/
structure Sv (elf : Set Pfn) where
  /-- `region_list_`. -/
  image : Image elf
  /-- `pth.root_`. -/
  root : Option Pfn
  /-- It is a `UmInstance`. -/
  isInstance : Bool
  /-- Log of the core that has it in the slot. -/
  loadedOn : Option UmiCore
  /-- Log of the state vectors its table was copied from, directly or transitively. -/
  copiedFrom : List SvId
  /-- Log: it was made from an ELF image, not from a checkpoint. -/
  fromElf : Bool
  /-- Log of its last unload. -/
  unloaded : Option UnloadLog

namespace Sv

variable {elf : Set Pfn}

/-- The state vector of an ELF image. -/
def ofImage (image : Image elf) : Sv elf where
  image
  root := none
  isInstance := false
  loadedOn := none
  copiedFrom := []
  fromElf := true
  unloaded := none

/-- An instance made from the state vector `src`, with the table `root`. -/
def clone (sv : Sv elf) (src : SvId) (root : Option Pfn) : Sv elf where
  image := sv.image
  root
  isInstance := true
  loadedOn := none
  copiedFrom := if root.isSome then src :: sv.copiedFrom else []
  fromElf := sv.fromElf
  unloaded := none

/-- A checkpoint of an instance, with the table `root`. -/
def snapshot (sv : Sv elf) (root : Pfn) : Sv elf where
  image := sv.image
  root := some root
  isInstance := false
  loadedOn := none
  copiedFrom := sv.copiedFrom
  fromElf := false
  unloaded := none

end Sv

/-- The memory, the cores' slots and everything that has pages. -/
structure Sys (A : Allocator Pfn) (elf : Set Pfn) where
  /-- Physical memory. -/
  h : PhysMem A
  /-- The state vectors and instances that exist. -/
  svs : SvId → Option (Sv elf)
  /-- The next identifier. -/
  nextId : SvId
  /-- The slot's entry in the top-level table of a core. -/
  pml4 : UmiCore → SimplePte
  /-- `active_umi_` of a core. -/
  activeUmi : UmiCore → Option SvId
  /-- Log of the guest reads: the instance, the address and the value. -/
  reads : List (SvId × LinAddr × Word)

namespace Sys

variable {A : Allocator Pfn} {elf : Set Pfn}

/-- Nothing exists yet. -/
def init (boot : BootMem A elf) : Sys A elf where
  h := boot.h
  svs := fun _ => none
  nextId := 0
  pml4 := fun _ => 0
  activeUmi := fun _ => none
  reads := []

/-! ## The slot -/

/-- `getSlotPDPTRoot`. -/
def getSlotPDPTRoot (s : Sys A elf) (c : UmiCore) : Option Pfn :=
  if (s.pml4 c).exists then some ((s.pml4 c).pageTabEntToPfn pml4Level) else none

/-- `setSlotPDPTRoot`. -/
def setSlotPDPTRoot (s : Sys A elf) (c : UmiCore) (newRoot : Pfn) : Sys A elf :=
  { s with
    pml4 := Function.update s.pml4 c (SimplePte.setPte newRoot false true true true false) }

/-- The instance in the slot of a core. -/
def active (s : Sys A elf) (c : UmiCore) : Except Stop (SvId × Sv elf) :=
  match s.activeUmi c with
  | none => .error .nullDeref
  | some id =>
    match s.svs id with
    | none => .error .nullDeref
    | some sv => .ok (id, sv)

/-- The slot gets the table of an instance that has one. -/
def setPthRoot (s : Sys A elf) (c : UmiCore) (pthRoot : Option Pfn) : Sys A elf :=
  match pthRoot with
  | some r => s.setSlotPDPTRoot c r
  | none => s

/-- `slot_load_instance`: what it does to the slot. -/
def slotLoadInstance (s : Sys A elf) (c : UmiCore) (id : SvId) : Except Stop (Sys A elf) :=
  match s.svs id with
  | none => .error .nullDeref
  | some sv =>
    let s := s.setPthRoot c sv.root
    .ok { s with
      activeUmi := Function.update s.activeUmi c (some id)
      svs := Function.update s.svs id (some { sv with loadedOn := some c }) }

/-- `slot_unload_instance`, which `Yield` and `slot_swap_instance` call, and `Start` and `Run` after
the instance has finished. -/
def slotUnloadInstance (s : Sys A elf) (c : UmiCore) : Except Stop (Sys A elf) := do
  let (id, sv) ← s.active c
  let log : UnloadLog := ⟨s.getSlotPDPTRoot c, slotLeaf s.h (s.getSlotPDPTRoot c)⟩
  .ok { s with
    pml4 := Function.update s.pml4 c 0
    activeUmi := Function.update s.activeUmi c none
    svs := Function.update s.svs id (some { sv with loadedOn := none, unloaded := some log }) }

/-! ## Page faults and guest accesses -/

/-- `process_pagefault`. -/
def processPagefault (s : Sys A elf) (c : UmiCore) (vaddr : LinAddr) (ec : PgFaultErrorCode) :
    Except Stop (Sys A elf) := do
  let (_, sv) ← s.active c
  let virt := vaddr.pageDown
  let cur := (slotLeaf s.h (s.getSlotPDPTRoot c) virt.path).map SimplePte.frame
  let (phys, h) ← getBackingPage sv.image.regions cur virt ec s.h
  let reg ← getRegionOfAddr sv.image.regions virt
  let (pdpt, h) ← UmPgTblMgmt.mapIntoPgTbl (s.getSlotPDPTRoot c) phys virt tblLevel pdptLevel ec.wr
    reg.writable (!reg.isExecutable) h
  let s := { s with h }
  .ok (if s.pml4 c = 0 then s.setSlotPDPTRoot c pdpt else s)

/-- The leaf the processor translates an access with, if it allows the access. -/
def translate (s : Sys A elf) (c : UmiCore) (vaddr : LinAddr) (wr : Bool) : Option SimplePte :=
  (slotLeaf s.h (s.getSlotPDPTRoot c) vaddr.path).filter fun e => !wr || e.rw

/-- An access: when the processor does not allow it, the fault is handled and the access retried. -/
def access (s : Sys A elf) (c : UmiCore) (vaddr : LinAddr) (wr : Bool) :
    Except Stop (SimplePte × Sys A elf) :=
  match s.translate c vaddr wr with
  | some e => .ok (e, s)
  | none => do
    let present := (slotLeaf s.h (s.getSlotPDPTRoot c) vaddr.path).isSome
    let s ← s.processPagefault c vaddr ⟨present, wr⟩
    match s.translate c vaddr wr with
    | some e => .ok (e, s)
    | none => .error .hang

/-- A guest reads the word at an address. -/
def read (s : Sys A elf) (c : UmiCore) (vaddr : LinAddr) : Except Stop (Sys A elf) := do
  let (id, _) ← s.active c
  let (e, s) ← s.access c vaddr false
  .ok { s with reads := (id, vaddr, s.h.mem e.frame vaddr.word) :: s.reads }

/-- A word after a store of `value` to the bytes of `mask`. -/
def storeWord (old value mask : Word) : Word :=
  old &&& ~~~mask ||| value &&& mask

/-- The store itself: the processor marks the leaf dirty and writes the word. -/
def store (s : Sys A elf) (c : UmiCore) (vaddr : LinAddr) (e : SimplePte) (value mask : Word) :
    Sys A elf :=
  let h := match s.getSlotPDPTRoot c with
    | some t => markLeaf SimplePte.setDirty s.h t vaddr.path
    | none => s.h
  let page := h.mem e.frame
  let page := Function.update page vaddr.word (storeWord (page vaddr.word) value mask)
  { s with h := h.setPage e.frame page }

/-- A guest writes the bytes of `mask` of the word at an address. -/
def write (s : Sys A elf) (c : UmiCore) (vaddr : LinAddr) (value mask : Word) :
    Except Stop (Sys A elf) := do
  let (e, s) ← s.access c vaddr true
  .ok (s.store c vaddr e value mask)

/-! ## State vectors and instances -/

/-- A new state vector or instance. -/
def addSv (s : Sys A elf) (sv : Sv elf) : Sys A elf :=
  { s with
    svs := Function.update s.svs s.nextId (some sv)
    nextId := s.nextId + 1 }

/-- `createSVFromElf`, which gives the regions of the image. -/
def createSVFromElf (s : Sys A elf) (image : Image elf) : Sys A elf :=
  s.addSv (.ofImage image)

/-- The constructor of `UmInstance`, which copies the state vector `src`. -/
def newInstance (s : Sys A elf) (src : SvId) : Except Stop (Sys A elf) :=
  match s.svs src with
  | none => .error .nullDeref
  | some sv => do
    let (root, h) ← UmPth.copy sv.root s.h
    .ok ({ s with h }.addSv (sv.clone src root))

/-- `process_checkpoint`: what it does with memory. -/
def processCheckpoint (s : Sys A elf) (c : UmiCore) : Except Stop (Sys A elf) := do
  let (_, sv) ← s.active c
  let (root, h) ← UmPth.copyInPages (s.getSlotPDPTRoot c) s.h
  .ok ({ s with h }.addSv (sv.snapshot root))

/-- The destruction of a state vector, or of an instance that is not in a slot. -/
def destroy (s : Sys A elf) (id : SvId) : Except Stop (Sys A elf) :=
  match s.svs id with
  | none => .error .nullDeref
  | some sv =>
    .ok { s with
      h := UmPth.destruct sv.root s.h
      svs := Function.update s.svs id none }

end Sys

/-! ## The machine -/

/-- One step of the memory machine. -/
inductive MemStep (elf : Set Pfn) where
  /-- A state vector is made from an ELF image. -/
  | createSV (image : Image elf)
  /-- An instance is made from a state vector. -/
  | newInstance (src : SvId)
  /-- An instance is loaded into the slot of a core. -/
  | load (c : UmiCore) (id : SvId)
  /-- The instance in the slot of a core is unloaded. -/
  | unload (c : UmiCore)
  /-- The guest on a core reads. -/
  | read (c : UmiCore) (vaddr : LinAddr)
  /-- The guest on a core writes. -/
  | write (c : UmiCore) (vaddr : LinAddr) (value mask : Word)
  /-- A checkpoint is taken of the instance on a core. -/
  | checkpoint (c : UmiCore)
  /-- A state vector or an instance is destroyed. -/
  | destroy (id : SvId)

namespace Sys

variable {A : Allocator Pfn} {elf : Set Pfn}

/-- What a step needs: instances are made from state vectors, loaded into empty slots and destroyed
while they are in none; guests run on the cores that have one, and access their slot. -/
def admits (s : Sys A elf) : MemStep elf → Bool
  | .createSV _ => true
  | .newInstance src => (s.svs src).any fun sv => !sv.isInstance
  | .load c id =>
    (s.activeUmi c).isNone && (s.svs id).any fun sv => sv.isInstance && sv.loadedOn.isNone
  | .unload c | .checkpoint c => (s.activeUmi c).isSome
  | .read c vaddr | .write c vaddr _ _ => (s.activeUmi c).isSome && validAddress vaddr
  | .destroy id => (s.svs id).any fun sv => sv.loadedOn.isNone

/-- What a step does. -/
def exec (s : Sys A elf) : MemStep elf → Except Stop (Sys A elf)
  | .createSV image => .ok (s.createSVFromElf image)
  | .newInstance src => s.newInstance src
  | .load c id => s.slotLoadInstance c id
  | .unload c => s.slotUnloadInstance c
  | .read c vaddr => s.read c vaddr
  | .write c vaddr value mask => s.write c vaddr value mask
  | .checkpoint c => s.processCheckpoint c
  | .destroy id => s.destroy id

/-- The machine: a step that stops the core is not taken. -/
def step (s : Sys A elf) (a : MemStep elf) : Option (Sys A elf) :=
  if s.admits a then (s.exec a).toOption else none

/-- A step is taken when it is admitted and does not stop the core. -/
theorem step_eq_some {s s' : Sys A elf} {a : MemStep elf} :
    s.step a = some s' ↔ s.admits a = true ∧ s.exec a = .ok s' :=
  guarded_eq_some

/-- The table of a state vector or an instance: that of the slot while it is loaded. -/
def table (s : Sys A elf) (id : SvId) : Option Pfn :=
  (s.svs id).bind fun sv =>
    match sv.loadedOn with
    | some c => s.getSlotPDPTRoot c
    | none => sv.root

/-! ## Runs that are evaluated -/

/-- The same state, with the listed frames and the slots' entries tabulated. -/
def tabulated (frames : List Pfn) (s : Sys A elf) : Sys A elf :=
  { s with
    h := { s.h with mem := tabulateAt (tabulate tableKeys) s.h.mem frames }
    pml4 := fun c => numeral (s.pml4 c) }

/-- A machine that tabulates its memory after each step. -/
def tabulating (frames : List Pfn) (step : Sys A elf → MemStep elf → Option (Sys A elf))
    (s : Sys A elf) (a : MemStep elf) : Option (Sys A elf) :=
  (step s a).map (tabulated frames)

/-- A tabulated state is the state. -/
theorem tabulated_eq (frames : List Pfn) (s : Sys A elf) : s.tabulated frames = s := by
  rw [tabulated, tabulateAt_eq (tabulate_eq mem_tableKeys)]
  simp only [numeral_eq]

/-- It is the same machine. -/
theorem tabulating_eq (frames : List Pfn) (step : Sys A elf → MemStep elf → Option (Sys A elf)) :
    tabulating frames step = step := by
  funext s a
  rw [tabulating, funext (tabulated_eq frames), Option.map_id']

/-! ## A small system -/

/-- An image with one page of zeros. -/
def bssImage : Image ∅ where
  regions := [⟨".bss", slotStartVAddr, 0x1000, true, 0⟩]
  backed := by simp [Region.hasData]

/-- A memory with four free frames. -/
def smallBoot : BootMem (Allocator.freeList Pfn) ∅ where
  h := { mem := fun _ _ => 0, pal := [1, 2, 3, 4], freeCalls := [] }
  used := by simp

/-- An instance of the image is loaded. -/
def loadFirst : List (MemStep ∅) :=
  [.createSV bssImage, .newInstance 0, .load 0 1]

/-- It writes to its page and is unloaded. -/
def writeAndUnload : List (MemStep ∅) :=
  loadFirst ++ [.write 0 slotStartVAddr 1 (-1), .unload 0]

/-- The frames of a memory with room for a checkpoint and a clone. -/
def twelveFrames : List Pfn :=
  [1, 2, 3, 4, 5, 6, 7, 8, 9, 10, 11, 12]

/-- That memory. -/
def twelveBoot : BootMem (Allocator.freeList Pfn) ∅ where
  h := { mem := fun _ _ => 0, pal := twelveFrames, freeCalls := [] }
  used := by simp

/-- An instance writes to its page, a checkpoint is taken of it, and it writes again. -/
def checkpointFirst : List (MemStep ∅) :=
  loadFirst ++ [.write 0 slotStartVAddr 1 (-1), .checkpoint 0, .write 0 slotStartVAddr 2 (-1)]

/-- A clone of the checkpoint is loaded on another core, reads the page and writes to it. -/
def cloneAndWrite : List (MemStep ∅) :=
  checkpointFirst ++ [.newInstance 2, .load 1 3, .read 1 slotStartVAddr,
    .write 1 slotStartVAddr 3 (-1)]

/-- Both instances read the page. -/
def cloneAndRead : List (MemStep ∅) :=
  cloneAndWrite ++ [.read 0 slotStartVAddr, .read 1 slotStartVAddr]

end Sys

end Umm
