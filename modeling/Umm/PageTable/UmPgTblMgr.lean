import Mathlib.Algebra.Group.Nat.Defs
import Mathlib.Data.List.Nodup
import Umm.Foundations.RadixFamily
import Umm.Foundations.RadixFree
import Umm.Foundations.RadixUpdate
import Umm.PageTable.SimplePte

/-!
# The page-table manager

The functions of `UmPgTblMgmt` that map pages, copy page tables and free them, over a memory of
pages of 512 words.  A pointer to a table is the number of its frame, and a null pointer is `none`.
Physical memory is mapped identically, so that a table is read and written like any other page.

The page allocator is a parameter: nothing is known of its strategy.
-/

namespace Umm

open Foundations

/-- A page: 512 words, or 512 entries of a table. -/
abbrev Page := Key → Word

/-- Physical memory with the page allocator. -/
abbrev PhysMem (A : Allocator Pfn) := Heap A Page

/-- Physical memory after the boot: the frames of the ELF images are in use. -/
structure BootMem (A : Allocator Pfn) (elf : Set Pfn) where
  /-- The memory. -/
  h : PhysMem A
  /-- The allocator does not have the frames of the images. -/
  used : ∀ f ∈ elf, ¬ h.IsFree f

/-- The ways the memory code stops a core. -/
inductive Stop where
  /-- `kbugon`: the allocator has no page left. -/
  | kbugon
  /-- `kabort`. -/
  | kabort
  /-- `while (1);` after a complaint. -/
  | hang
  /-- A null pointer is dereferenced. -/
  | nullDeref
  /-- `kassert`: an assertion of the debug build fails. -/
  | kassert
deriving DecidableEq, Repr

/-- The indices of a table, in the order of its loops. -/
def tableKeys : List Key := (List.range 512).map (BitVec.ofNat 9)

theorem mem_tableKeys (k : Key) : k ∈ tableKeys := by
  rw [tableKeys, List.mem_map]
  exact ⟨k.toNat, List.mem_range.mpr k.isLt, BitVec.ofNat_toNat ..⟩

theorem nodup_tableKeys : tableKeys.Nodup := by
  refine List.Nodup.map_on (fun a ha b hb hab => ?_) List.nodup_range
  have htoNat := congrArg BitVec.toNat hab
  rwa [BitVec.toNat_ofNat, BitVec.toNat_ofNat, Nat.mod_eq_of_lt (List.mem_range.mp ha),
    Nat.mod_eq_of_lt (List.mem_range.mp hb)] at htoNat

theorem length_tableKeys : tableKeys.length = 512 := by
  rw [tableKeys, List.length_map, List.length_range]

/-- An entry made by `setPte` leads where it was made to, at the levels of the tables. -/
theorem SimplePte.pageTabEntToPfn_setPte (tab : Pfn) (d acc w us xd : Bool) {lvl : ℕ}
    (h1 : 1 ≤ lvl) (h4 : lvl ≤ 4) : (setPte tab d acc w us xd).pageTabEntToPfn lvl = tab := by
  obtain rfl | rfl | rfl | rfl : lvl = 1 ∨ lvl = 2 ∨ lvl = 3 ∨ lvl = 4 := by omega
  all_goals simp [pageTabEntToPfn]

-- unfolding the 512 keys is never what a proof wants
attribute [irreducible] tableKeys

/-- x86-64 page tables.  A table is linked with `setPte(ret, false, true, true, true)`. -/
def pageTables : Layout Key SimplePte Pfn where
  keys := tableKeys
  mem_keys := mem_tableKeys
  nodup_keys := nodup_tableKeys
  top := pml4Level
  present := SimplePte.exists
  isLeaf lvl e := e.isLeaf lvl
  next lvl e := e.pageTabEntToPfn lvl
  empty := 0
  link c := SimplePte.setPte c false true true true false
  isLeaf_one e := by simp [SimplePte.isLeaf]
  present_empty := by decide
  present_link c := by simp [SimplePte.exists]
  isLeaf_link l c h2 _ := by simp [SimplePte.isLeaf, show l ≠ 1 by omega]
  next_link l c h2 htop := SimplePte.pageTabEntToPfn_setPte c _ _ _ _ _ (by omega) htop

namespace UmPgTblMgmt

variable {A : Allocator Pfn}

/-! ## Mapping -/

/-- `mapIntoPgTbl`, with `mapIntoPgTblHelper`. -/
def mapIntoPgTbl (root : Option Pfn) (phys : Pfn) (virt : LinAddr) (mapLvl curLvl : ℕ)
    (writeFault rdPerm execDisable : Bool) (h : PhysMem A) : Except Stop (Pfn × PhysMem A) :=
  pageTables.mapAt .kbugon (SimplePte.setPte phys writeFault true rdPerm true execDisable) virt.path
    mapLvl curLvl root h

/-- `findAndSetPTECOW`. -/
def findAndSetPTECOW (root : Option Pfn) (origPte : SimplePte) (virt : LinAddr)
    (mapLvl curLvl : ℕ) (h : PhysMem A) : Except Stop (Pfn × PhysMem A) :=
  pageTables.mapAt .kbugon
    (SimplePte.setPte (origPte.pageTabEntToPfn tblLevel) true true false true false) virt.path
    mapLvl curLvl root h

/-! ## Copying -/

/-- `copyDirtyPage`: copy the frames of a page of the level to where a new frame begins. -/
def copyDirtyPage (src : Pfn) (lvl : ℕ) (h : PhysMem A) : Except Stop (Pfn × PhysMem A) := do
  let (page, h) ← h.alloc .kbugon
  .ok (page, (List.range (512 ^ (lvl - 1))).foldl (fun h i =>
    h.setPage (page + BitVec.ofNat 40 i) (h.mem (src + BitVec.ofNat 40 i))) h)

/-- The state of a copy: the table copied to, and the memory. -/
abbrev CopyState (A : Allocator Pfn) := Option Pfn × PhysMem A

/-- What `walkPgTblCopyDirtyHelper` does at a leaf. -/
def copyDirtyLeaf (e : SimplePte) (lvl : ℕ) (idx : ℕ → Key) (s : CopyState A) :
    Except Stop (CopyState A) :=
  if e.dirty then do
    let (phys, h) ← copyDirtyPage (e.pageTabEntToPfn lvl) lvl s.2
    let virt := reconstructLinAddrPgFromOffsets idx
    let (copy, h) ← mapIntoPgTbl s.1 phys virt lvl pdptLevel true true false h
    .ok (some copy, h)
  else .ok s

/-- What `walkPgTblCOWHelper` does at a leaf. -/
def cowLeaf (e : SimplePte) (lvl : ℕ) (idx : ℕ → Key) (s : CopyState A) :
    Except Stop (CopyState A) :=
  if e.dirty then do
    let virt := reconstructLinAddrPgFromOffsets idx
    let (copy, h) ← findAndSetPTECOW s.1 e virt lvl pdptLevel s.2
    .ok (some copy, h)
  else .ok s

/-- What `walkPgTblCopyDirtyCOWHelper` does at a leaf: a dirty page is copied when it is writable
and shared otherwise. -/
def copyDirtyCOWLeaf (e : SimplePte) (lvl : ℕ) (idx : ℕ → Key) (s : CopyState A) :
    Except Stop (CopyState A) :=
  if e.rw then copyDirtyLeaf e lvl idx s else cowLeaf e lvl idx s

/-- The keys a copy starts with: the slot's at the top level. -/
def slotKeys : ℕ → Key :=
  Function.update (fun _ => 0) pml4Level slotPml4Num

/-- A walk over the leaves of the table at `root`. -/
def walkCopy (leaf : SimplePte → ℕ → (ℕ → Key) → CopyState A → Except Stop (CopyState A))
    (root : Pfn) (copy : Option Pfn) (lvl : ℕ) (h : PhysMem A) : Except Stop (CopyState A) := do
  let (s, _) ← pageTables.walkLeaves (fun s : CopyState A => s.2.mem) leaf lvl root
    ((copy, h), slotKeys)
  .ok s

/-- `walkPgTblCopyDirty`. -/
def walkPgTblCopyDirty (root : Pfn) (copy : Option Pfn) (lvl : ℕ) (h : PhysMem A) :
    Except Stop (CopyState A) :=
  walkCopy copyDirtyLeaf root copy lvl h

/-- `walkPgTblCOW`. -/
def walkPgTblCOW (root : Pfn) (copy : Option Pfn) (lvl : ℕ) (h : PhysMem A) :
    Except Stop (CopyState A) :=
  walkCopy cowLeaf root copy lvl h

/-- `walkPgTblCopyDirtyCOW`. -/
def walkPgTblCopyDirtyCOW (root : Pfn) (copy : Option Pfn) (lvl : ℕ) (h : PhysMem A) :
    Except Stop (CopyState A) :=
  walkCopy copyDirtyCOWLeaf root copy lvl h

/-! ## Freeing -/

/-- `orders`: the allocator's order of the pages of a level. -/
def orders (lvl : ℕ) : ℕ :=
  9 * (lvl - 1)

/-- `page_allocator->Free(pfn, order)`. -/
def freePages (h : PhysMem A) (pfn : Pfn) (order : ℕ) : PhysMem A :=
  (List.range (2 ^ order)).foldl (fun h i => h.free (pfn + BitVec.ofNat 40 i)) h

/-- The visitor of `traverseAccessedPages`. -/
def accessedPages {σ : Type} (leafFn : SimplePte → ℕ → σ → σ) (bret : Pfn → ℕ → σ → σ) :
    Layout.Visitor SimplePte Pfn σ where
  follow e _ s := (e.exists && e.a, s)
  beforeRec _ _ s := s
  afterRec _ _ _ s := s
  leaf := leafFn
  beforeRet := bret

/-- `freePageTableLamb`: free the pages with write access, and the tables. -/
def freePageTableLamb (root : Pfn) (lvl : ℕ) (h : PhysMem A) : PhysMem A :=
  pageTables.traverse Heap.mem (accessedPages
    (fun e lvl h => if e.rw then freePages h (e.pageTabEntToPfn lvl) (orders lvl) else h)
    (fun t _ h => freePages h t 0)) lvl root h

end UmPgTblMgmt

end Umm
