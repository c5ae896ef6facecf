import Umm.Memory.Reclaim
import Umm.PageTable.CopyClaims

/-!
# Where the memory is

While no table is dropped by an unload, every frame that has been allocated since boot is held by exactly one
state vector or instance, as a page of its table or as a page that it may write, and a checkpoint has
all that was allocated for it.  When everything has been destroyed, the memory is that of boot.
-/

namespace Umm

open Foundations Foundations.Layout

variable {A : Allocator Pfn} {elf : Set Pfn}

namespace Sys

variable {s s' : Sys A elf} {c : UmiCore} {id : SvId} {sv : Sv elf} {root' : Option Pfn}
  {a : MemStep elf} {boot : BootMem A elf}

/-- What has been allocated since boot is in the tables. -/
abbrev Accounted (boot : BootMem A elf) (s : Sys A elf) : Prop :=
  pageTables.Accounts SimplePte.rw pdptLevel {f | boot.h.IsFree f} s.h s.table

theorem Effect.accounted (heffect : s.Effect id root' s') (hwf : s.Wf) (haccounted : s.Accounted boot)
    (hclaims : SlotClaims s.h (s.table id) s'.h root') : s'.Accounted boot := by
  have haccounts := haccounted.evolve hwf.apart heffect.evolves hclaims
  rwa [← heffect.table_eq] at haccounts

end Sys

end Umm
