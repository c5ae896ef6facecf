import Umm.PageTable.SlotTable

/-!
# Regions and backing pages

The regions of a state vector say what backs the addresses of the slot: data of the ELF image, or
zeros.  `getBackingPage` finds the physical page for a fault, and `initialPage` is what a page of a
region holds before it is first written.

An `Image` is the region list of an ELF image: what its regions take their data from lies in the
frames of the image.
-/

namespace Umm

open Foundations

variable {A : Allocator Pfn}

/-! ## Copying memory -/

/-- `Pfn::Down`. -/
def pfnDown (addr : Word) : Pfn := addr.extractLsb' 12 40

/-- The byte at a physical address. -/
def byteAt (mem : Pfn → Page) (addr : Word) : BitVec 8 :=
  (mem (pfnDown addr) (LinAddr.word addr)).extractLsb' (8 * (addr.toNat % 8)) 8

/-- The eight bytes from a physical address on. -/
def wordAt (mem : Pfn → Page) (addr : Word) : Word :=
  (List.range 8).foldl (fun w j =>
    w ||| (byteAt mem (addr + BitVec.ofNat 64 j)).setWidth 64 <<< (8 * j)) 0

/-- `memcpy` of `kPageSize` bytes from a physical address. -/
def memcpyPage (mem : Pfn → Page) (src : Word) : Page :=
  fun k => wordAt mem (src + BitVec.ofNat 64 (8 * k.toNat))

/-- A copied page depends on the frames it is copied from. -/
theorem memcpyPage_congr {mem mem' : Pfn → Page} {src : Word}
    (h : ∀ i < 4096, mem' (pfnDown (src + BitVec.ofNat 64 i)) =
      mem (pfnDown (src + BitVec.ofNat 64 i))) : memcpyPage mem' src = memcpyPage mem src := by
  funext k
  unfold memcpyPage wordAt
  refine List.foldl_ext _ _ _ fun w j hj => ?_
  have hlt : 8 * k.toNat + j < 4096 := by
    have hk := k.isLt
    have hj := List.mem_range.mp hj
    omega
  have haddr : src + BitVec.ofNat 64 (8 * k.toNat) + BitVec.ofNat 64 j =
      src + BitVec.ofNat 64 (8 * k.toNat + j) := by
    rw [BitVec.add_assoc, BitVec.ofNat_add]
  rw [byteAt, byteAt, haddr, h _ hlt]

/-! ## Regions -/

/-- `Region`. -/
structure Region where
  /-- The name of the section. -/
  name : String
  /-- The first address. -/
  start : LinAddr
  /-- The number of bytes. -/
  length : Word
  /-- Writes are allowed. -/
  writable : Bool
  /-- The address of the backing data, or null. -/
  data : Word
deriving DecidableEq, Repr

namespace Region

/-- `AddrIsInRegion`. -/
def addrIsInRegion (reg : Region) (vaddr : LinAddr) : Bool :=
  decide (reg.start ≤ vaddr) && decide (vaddr < reg.start + reg.length)

/-- `GetOffset`. -/
def getOffset (reg : Region) (vaddr : LinAddr) : Word :=
  if reg.addrIsInRegion vaddr then vaddr - reg.start else 0

/-- There is backing data: the pointer is not null. -/
def hasData (reg : Region) : Bool :=
  reg.data != 0

/-- Instructions may be fetched from the region. -/
def isExecutable (reg : Region) : Bool :=
  reg.name == ".text" || reg.name == "usr"

end Region

/-- `GetRegionOfAddr`. -/
def getRegionOfAddr (regionList : List Region) (vaddr : LinAddr) : Except Stop Region :=
  match regionList.find? (·.addrIsInRegion vaddr) with
  | some reg => .ok reg
  | none => .error .kabort

theorem of_find_region {regionList : List Region} {vaddr : LinAddr} {reg : Region}
    (hfind : regionList.find? (·.addrIsInRegion vaddr) = some reg) :
    reg ∈ regionList ∧ reg.addrIsInRegion vaddr = true := by
  refine ⟨List.mem_of_find?_eq_some hfind, ?_⟩
  exact List.find?_some (p := fun reg : Region => reg.addrIsInRegion vaddr) hfind

/-- The regions begin at page boundaries, and no address is in two of them. -/
structure Laid (regionList : List Region) : Prop where
  /-- A region begins where a page does. -/
  start : ∀ reg ∈ regionList, reg.start.pageDown = reg.start
  /-- Regions do not overlap. -/
  apart : ∀ reg ∈ regionList, ∀ reg' ∈ regionList, ∀ vaddr, reg.addrIsInRegion vaddr = true →
    reg'.addrIsInRegion vaddr = true → reg = reg'

namespace Laid

variable {regionList : List Region} {reg : Region} {vaddr : LinAddr}

/-- The region that is found is the one that has the address. -/
theorem getRegionOfAddr_of_mem (hlaid : Laid regionList) (hreg : reg ∈ regionList)
    (hin : reg.addrIsInRegion vaddr = true) : getRegionOfAddr regionList vaddr = .ok reg := by
  unfold getRegionOfAddr
  cases hfind : regionList.find? (·.addrIsInRegion vaddr) with
  | none => exact absurd hin (by simpa using List.find?_eq_none.mp hfind reg hreg)
  | some reg' =>
    obtain ⟨hmem', hin'⟩ := of_find_region hfind
    rw [hlaid.apart reg hreg reg' hmem' vaddr hin hin']

/-- A region has the first address of every page that it has an address of. -/
theorem addrIsInRegion_pageDown (hlaid : Laid regionList) (hreg : reg ∈ regionList)
    (hin : reg.addrIsInRegion vaddr = true) : reg.addrIsInRegion vaddr.pageDown = true := by
  have hstart := congrArg BitVec.toNat (hlaid.start reg hreg)
  have hpage := vaddr.toNat_pageDown
  rw [LinAddr.toNat_pageDown] at hstart
  simp only [Region.addrIsInRegion, Bool.and_eq_true, decide_eq_true_eq, BitVec.le_def,
    BitVec.lt_def] at hin ⊢
  omega

/-- The region of an address is that of its page. -/
theorem getRegionOfAddr_pageDown (hlaid : Laid regionList)
    (hregion : getRegionOfAddr regionList vaddr = .ok reg) :
    getRegionOfAddr regionList vaddr.pageDown = .ok reg := by
  obtain ⟨hreg, hin⟩ : reg ∈ regionList ∧ reg.addrIsInRegion vaddr = true := by
    unfold getRegionOfAddr at hregion
    cases hfind : regionList.find? (·.addrIsInRegion vaddr) with
    | none => simp [hfind] at hregion
    | some reg' =>
      obtain rfl : reg' = reg := by simpa [hfind] using hregion
      exact of_find_region hfind
  exact hlaid.getRegionOfAddr_of_mem hreg (hlaid.addrIsInRegion_pageDown hreg hin)

end Laid

/-- The regions of an ELF image whose frames are `elf`: the pages that are copied or mapped from it
lie in these frames. -/
structure Image (elf : Set Pfn) where
  /-- The regions. -/
  regions : List Region
  /-- What they take their data from lies in the image. -/
  backed : ∀ reg ∈ regions, reg.hasData = true ∨ reg.writable = false → ∀ vaddr : LinAddr,
    vaddr.pageDown = vaddr → reg.addrIsInRegion vaddr = true →
    ∀ i < 4096, pfnDown (reg.data + reg.getOffset vaddr + BitVec.ofNat 64 i) ∈ elf

/-! ## Backing pages -/

/-- The bits of a page fault's error code that the handler reads. -/
structure PgFaultErrorCode where
  /-- `P`: the page was present. -/
  p : Bool
  /-- `WR`: the access was a write. -/
  wr : Bool
deriving DecidableEq, Repr

/-- `GetBackingPage`: the page for a fault at the page `vPgStart`, which `cur` translates to. -/
def getBackingPage (regionList : List Region) (cur : Option Pfn) (vPgStart : LinAddr)
    (ec : PgFaultErrorCode) (h : PhysMem A) : Except Stop (Pfn × PhysMem A) := do
  let reg ← getRegionOfAddr regionList vPgStart
  if ec.wr && !reg.writable then .error .hang
  else if !reg.writable then
    if reg.name == ".text" || reg.name == ".rodata" then
      .ok (pfnDown (reg.data + reg.getOffset vPgStart), h)
    else .error .hang
  else do
    let (page, h) ← h.alloc .kbugon
    if ec.p && ec.wr then
      match cur with
      | some f => .ok (page, h.setPage page (h.mem f))
      | none => .error .nullDeref
    else if reg.hasData then
      .ok (page, h.setPage page (memcpyPage h.mem (reg.data + reg.getOffset vPgStart)))
    else if reg.name == ".bss" || reg.name == "usr" then .ok (page, h.setPage page fun _ => 0)
    else .error .kabort

/-- What a page of the slot holds before it is first written, for the kinds of regions that
`getBackingPage` supports. -/
def initialPage (regionList : List Region) (mem : Pfn → Page) (vPgStart : LinAddr) : Option Page :=
  match regionList.find? (·.addrIsInRegion vPgStart) with
  | none => none
  | some reg =>
    if reg.writable then
      if reg.hasData then some (memcpyPage mem (reg.data + reg.getOffset vPgStart))
      else if reg.name == ".bss" || reg.name == "usr" then some fun _ => 0
      else none
    else if reg.name == ".text" || reg.name == ".rodata" then
      some (mem (pfnDown (reg.data + reg.getOffset vPgStart)))
    else none

/-- The page is in a region of a kind that `getBackingPage` supports, and one that is writable for a
write. -/
def Supported (regionList : List Region) (mem : Pfn → Page) (vPgStart : LinAddr) (wr : Bool) :
    Prop :=
  initialPage regionList mem vPgStart ≠ none ∧
    (wr = true → ∃ reg, getRegionOfAddr regionList vPgStart = .ok reg ∧ reg.writable = true)

section Spec

variable {elf : Set Pfn} {img : Image elf} {vPgStart : LinAddr}

/-- The initial content depends on the frames of the image only. -/
theorem initialPage_congr {mem mem' : Pfn → Page} (hpage : vPgStart.pageDown = vPgStart)
    (hmem : ∀ f ∈ elf, mem' f = mem f) :
    initialPage img.regions mem' vPgStart = initialPage img.regions mem vPgStart := by
  unfold initialPage
  cases hfind : img.regions.find? (·.addrIsInRegion vPgStart) with
  | none => rfl
  | some reg =>
    obtain ⟨hreg, hin⟩ := of_find_region hfind
    have hbacked := fun hdata => img.backed reg hreg hdata vPgStart hpage hin
    cases hwritable : reg.writable with
    | true =>
      cases hdata : reg.hasData with
      | true =>
        have hcopy := memcpyPage_congr fun i hi => hmem _ (hbacked (Or.inl hdata) i hi)
        simp [hwritable, hdata, hcopy]
      | false => simp [hwritable, hdata]
    | false =>
      have hframe := hmem _ (hbacked (Or.inr hwritable) 0 (by decide))
      rw [BitVec.add_zero] at hframe
      simp [hwritable, hframe]

/-- What `getBackingPage` returns: a frame of the image for a read-only region, and otherwise a new
frame with the page to back the address with. -/
structure Backing (regionList : List Region) (cur : Option Pfn) (vPgStart : LinAddr)
    (ec : PgFaultErrorCode) (elf : Set Pfn) (h : PhysMem A) (f : Pfn) (h' : PhysMem A)
    (reg : Region) : Prop where
  /-- The region of the address. -/
  region : getRegionOfAddr regionList vPgStart = .ok reg
  /-- Read-only regions are mapped from the image. -/
  shared : reg.writable = false → ec.wr = false ∧ h' = h ∧ f ∈ elf ∧
    initialPage regionList h.mem vPgStart = some (h.mem f)
  /-- Writable ones get a frame of their own: with the current page on a write to a present page, and
  with the initial one otherwise. -/
  owned : reg.writable = true → ∃ page, h.Filled f page h' ∧
    if ec.p && ec.wr then ∃ g, cur = some g ∧ page = h.mem g
    else initialPage regionList h.mem vPgStart = some page

/-- The memory after `getBackingPage`, for mapping a leaf `e` of the page that it returned. -/
theorem Backing.before {regionList : List Region} {cur : Option Pfn} {ec : PgFaultErrorCode}
    {h h' : PhysMem A} {f : Pfn} {reg : Region}
    (hbacking : Backing regionList cur vPgStart ec elf h f h' reg) :
    (∀ g, h'.IsFree g → h.IsFree g) ∧ (∀ g, ¬ h.IsFree g → h'.mem g = h.mem g) ∧
      h'.freeCalls = h.freeCalls ∧ (reg.writable = true → h.IsFree f ∧ ¬ h'.IsFree f) := by
  cases hwritable : reg.writable with
  | false =>
    obtain ⟨-, rfl, -, -⟩ := hbacking.shared hwritable
    exact ⟨fun _ hg => hg, fun _ _ => rfl, rfl, fun h => by cases h⟩
  | true =>
    obtain ⟨page, hfilled, -⟩ := hbacking.owned hwritable
    refine ⟨fun g hg => ((hfilled.isFree g).mp hg).1, fun g hg => hfilled.mem_eq_of_used hg,
      hfilled.freeCalls, fun _ => ⟨hfilled.free, fun hfree => ?_⟩⟩
    exact ((hfilled.isFree f).mp hfree).2 rfl

/-- The rule of `getBackingPage`: in a supported region, it fails only when memory has run out. -/
theorem getBackingPage_backing (hpage : vPgStart.pageDown = vPgStart) (cur : Option Pfn)
    (ec : PgFaultErrorCode) (h : PhysMem A) :
    Outcome (getBackingPage img.regions cur vPgStart ec h)
      (fun p => ∃ reg, Backing img.regions cur vPgStart ec elf h p.1 p.2 reg)
      (fun err => Supported img.regions h.mem vPgStart ec.wr →
        ((ec.p && ec.wr) = true → cur ≠ none) → err = .kbugon) := by
  unfold getBackingPage
  cases hfind : img.regions.find? (·.addrIsInRegion vPgStart) with
  | none =>
    rw [getRegionOfAddr, hfind]
    intro hsupported
    rw [Supported, initialPage, hfind] at hsupported
    exact absurd rfl hsupported.1
  | some reg =>
    have hregion : getRegionOfAddr img.regions vPgStart = .ok reg := by
      simp [getRegionOfAddr, hfind]
    obtain ⟨hreg, hin⟩ := of_find_region hfind
    have hbacked := fun hdata => img.backed reg hreg hdata vPgStart hpage hin
    refine outcome_bind.mpr ?_
    rw [hregion]
    simp only [outcome_ok]
    cases hwritable : reg.writable with
    | false =>
      cases hwr : ec.wr with
      | true =>
        rintro ⟨-, hreg'⟩
        obtain ⟨reg', hregion', hwritable'⟩ := hreg' rfl
        rw [hregion] at hregion'
        obtain rfl := Except.ok.inj hregion'
        rw [hwritable] at hwritable'
        cases hwritable'
      | false =>
        simp only [Bool.false_and, Bool.false_eq_true, if_false, Bool.not_false, if_true]
        split_ifs with hname
        · have hframe := hbacked (Or.inr hwritable) 0 (by decide)
          rw [BitVec.add_zero] at hframe
          refine ⟨reg, hregion, fun _ => ⟨hwr, rfl, hframe, ?_⟩, fun h => ?_⟩
          · simp [initialPage, hfind, hwritable, hname]
          · rw [hwritable] at h
            cases h
        · intro hsupported
          simp [Supported, initialPage, hfind, hwritable, hname] at hsupported
    | true =>
      simp only [Bool.not_true, Bool.and_false, Bool.false_eq_true, if_false]
      refine outcome_bind.mpr (Heap.alloc_outcome (fun _ _ => rfl) fun f h₁ halloc => ?_)
      have howned : ∀ page, (if ec.p && ec.wr then ∃ g, cur = some g ∧ page = h.mem g
          else initialPage img.regions h.mem vPgStart = some page) →
          ∃ reg, Backing img.regions cur vPgStart ec elf h f (h₁.setPage f page) reg := by
        intro page hcontent
        refine ⟨reg, hregion, fun h => ?_, fun _ => ⟨page, halloc.filled _, hcontent⟩⟩
        rw [hwritable] at h
        cases h
      simp only [halloc.mem]
      split_ifs with hcow hdata hname
      · cases cur with
        | none => exact fun _ hcur => absurd rfl (hcur hcow)
        | some g =>
          refine howned _ ?_
          rw [if_pos hcow]
          exact ⟨g, rfl, rfl⟩
      · refine howned _ ?_
        rw [if_neg hcow]
        simp [initialPage, hfind, hwritable, hdata]
      · refine howned _ ?_
        rw [if_neg hcow]
        simp [initialPage, hfind, hwritable, hdata, hname]
      · intro hsupported
        simp [Supported, initialPage, hfind, hwritable, hdata, hname] at hsupported

end Spec

end Umm
