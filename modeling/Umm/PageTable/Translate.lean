import Umm.PageTable.UmPgTblMgr

/-!
# Software translation

`walkPageTable` follows a linear address to its leaf.  `addrToPTELamb` returns a pointer to the leaf;
`getPhysAddrLamb` and its twin `getPhysAddrRecHelper` return an address.

`physAddr` is what an address translates to: the base of the frame of the leaf, plus the offset into
the page.  The two translations compute the base and then overwrite it with the result of
`injectOffset`, whose local `pa` is not initialised.  That local is a parameter here.
-/

namespace Umm

open Foundations Foundations.Layout

/-- `ToAddr`: where a frame begins. -/
def toAddr (f : Pfn) : Word := f.setWidth 64 <<< 12

/-- Assign the bit-field of the low `width` bits of a word. -/
def setOffset (w : Word) (width : ℕ) (value : Word) : Word :=
  w >>> width <<< width ||| (value.setWidth width).setWidth 64

namespace UmPgTblMgmt

/-- `pgShifts`: how many bits of an address are its offset into a page of the level. -/
def pgShifts (lvl : ℕ) : ℕ :=
  match lvl with
  | 1 => 12
  | 2 => 21
  | 3 => 30
  | _ => 0

/-! ## The walk -/

/-- `nextTableOrFrame`. -/
def nextTableOrFrame (m : Pfn → Key → SimplePte) (table : Pfn) (offset : Key) (lvl : ℕ) :
    Except Stop Pfn :=
  if (m table offset).exists then .ok ((m table offset).pageTabEntToPfn lvl) else .error .kassert

/-- `walkPageTable`.  A pointer to an entry is its table and its index. -/
def walkPageTable {α : Type} (m : Pfn → Key → SimplePte) (virt : LinAddr)
    (leafFn : Pfn × Key → LinAddr → ℕ → Except Stop α) : ℕ → Pfn → Except Stop α
  -- `pageTabEntToAddr` asserts the level
  | 0, _ => .error .kassert
  | lvl + 1, root =>
    if (m root (virt.index (lvl + 1))).isLeaf (lvl + 1) then
      leafFn (root, virt.index (lvl + 1)) virt (lvl + 1)
    else do
      let next ← nextTableOrFrame m root (virt.index (lvl + 1)) (lvl + 1)
      walkPageTable m virt leafFn lvl next

/-- `addrToPTELamb`. -/
def addrToPTELamb (m : Pfn → Key → SimplePte) (la : LinAddr) (root : Pfn) (lvl : ℕ) :
    Except Stop (Pfn × Key) :=
  walkPageTable m la (fun curPte _ _ => .ok curPte) lvl root

/-- `injectOffset`, where `pa` is the content of its uninitialised local. -/
def injectOffset (pa : Word) (la : LinAddr) (lvl : ℕ) : Word :=
  match lvl with
  | 3 => setOffset pa 30 la
  | 2 => setOffset pa 21 la
  | 1 => setOffset pa 12 la
  | _ => pa

/-- `getPhysAddrLamb`. -/
def getPhysAddrLamb (pa : Word) (m : Pfn → Key → SimplePte) (la : LinAddr) (root : Pfn) (lvl : ℕ) :
    Except Stop Word :=
  walkPageTable m la (fun curPte virt lvl => do
    let _frame ← nextTableOrFrame m curPte.1 curPte.2 lvl
    .ok (injectOffset pa virt lvl)) lvl root

/-- `getPhysAddrRecHelper`. -/
def getPhysAddrRecHelper (pa : Word) (m : Pfn → Key → SimplePte) (la : LinAddr) :
    Pfn → ℕ → Except Stop Word
  | _, 0 => .error .kassert
  | root, lvl + 1 =>
    if (m root (la.index (lvl + 1))).exists then
      if (m root (la.index (lvl + 1))).isLeaf (lvl + 1) then do
        let _frame ← nextTableOrFrame m root (la.index (lvl + 1)) (lvl + 1)
        .ok (injectOffset pa la (lvl + 1))
      else do
        let next ← nextTableOrFrame m root (la.index (lvl + 1)) (lvl + 1)
        getPhysAddrRecHelper pa m la next lvl
    else .error .kassert

/-- What an address translates to that the leaf `e` of the level maps. -/
def physAddr (la : LinAddr) (e : SimplePte) (lvl : ℕ) : Word :=
  toAddr (e.pageTabEntToPfn lvl) + (la.setWidth (pgShifts lvl)).setWidth 64

section Walk

variable {m : Pfn → Key → SimplePte} {la : LinAddr} {lvl l : ℕ} {root t : Pfn} {e : SimplePte}

theorem nextTableOrFrame_of_exists {k : Key} (h : (m root k).exists = true) :
    nextTableOrFrame m root k lvl = .ok ((m root k).pageTabEntToPfn lvl) := by
  rw [nextTableOrFrame, if_pos h]

/-- The walk ends at the leaf of the address. -/
theorem walkPageTable_of_locate {α : Type} {leafFn : Pfn × Key → LinAddr → ℕ → Except Stop α}
    (h : pageTables.locate m lvl root la.path = some (l, t)) :
    walkPageTable m la leafFn lvl root = leafFn (t, la.index l) la l := by
  induction lvl generalizing root with
  | zero => cases h
  | succ lvl ih =>
    unfold locate at h
    split_ifs at h with hpresent hleaf
    · obtain ⟨rfl, rfl⟩ := Prod.mk.inj (Option.some.inj h)
      exact if_pos hleaf
    · have hstep : ¬ SimplePte.isLeaf (m root (la.index (lvl + 1))) (lvl + 1) = true := hleaf
      unfold walkPageTable
      rw [if_neg hstep, nextTableOrFrame_of_exists (k := la.index (lvl + 1)) hpresent]
      exact ih h

/-- Where the walk of a mapped address ends. -/
theorem locate_of_leaf (h : pageTables.leaf m lvl root la.path = some (l, e)) :
    ∃ t, pageTables.locate m lvl root la.path = some (l, t) ∧ m t (la.index l) = e ∧
      e.exists = true := by
  have hpresent := (leaf_spec h).2.2.1
  obtain ⟨⟨l', t⟩, hlocate, heq⟩ := Option.map_eq_some_iff.mp h
  obtain ⟨rfl, rfl⟩ := Prod.mk.inj heq
  exact ⟨t, hlocate, rfl, hpresent⟩

/-- `addrToPTELamb` returns a pointer to the leaf. -/
theorem addrToPTELamb_of_leaf (h : pageTables.leaf m lvl root la.path = some (l, e)) :
    ∃ t k, addrToPTELamb m la root lvl = .ok (t, k) ∧ m t k = e := by
  obtain ⟨t, hlocate, hentry, -⟩ := locate_of_leaf h
  exact ⟨t, la.index l, walkPageTable_of_locate hlocate, hentry⟩

/-- `getPhysAddrLamb` returns the offset injected into the uninitialised local. -/
theorem getPhysAddrLamb_of_leaf (pa : Word)
    (h : pageTables.leaf m lvl root la.path = some (l, e)) :
    getPhysAddrLamb pa m la root lvl = .ok (injectOffset pa la l) := by
  obtain ⟨t, hlocate, hentry, hexists⟩ := locate_of_leaf h
  have hnext : nextTableOrFrame m t (la.index l) l = .ok _ :=
    nextTableOrFrame_of_exists (hentry ▸ hexists)
  rw [getPhysAddrLamb, walkPageTable_of_locate hlocate, hnext]
  rfl

/-- So does `getPhysAddrRecHelper`. -/
theorem getPhysAddrRecHelper_of_leaf (pa : Word)
    (h : pageTables.leaf m lvl root la.path = some (l, e)) :
    getPhysAddrRecHelper pa m la root lvl = .ok (injectOffset pa la l) := by
  induction lvl generalizing root with
  | zero => cases h
  | succ lvl ih =>
    rcases pageTables.entry_cases (lvl + 1) (m root (la.path (lvl + 1))) with
      habsent | ⟨hpresent, hleaf⟩ | ⟨c, hc⟩
    · rw [leaf_of_absent habsent] at h
      cases h
    · have hexists : SimplePte.exists (m root (la.index (lvl + 1))) = true := hpresent
      have hstop : SimplePte.isLeaf (m root (la.index (lvl + 1))) (lvl + 1) = true := hleaf
      rw [leaf_of_leaf hpresent hleaf] at h
      obtain ⟨rfl, -⟩ := Prod.mk.inj (Option.some.inj h)
      unfold getPhysAddrRecHelper
      rw [if_pos hexists, if_pos hstop, nextTableOrFrame_of_exists hexists]
      rfl
    · rw [leaf_of_child hc] at h
      obtain ⟨hpresent, hleaf, rfl⟩ := child_eq_some.mp hc
      have hexists : SimplePte.exists (m root (la.index (lvl + 1))) = true := hpresent
      have hstep : SimplePte.isLeaf (m root (la.index (lvl + 1))) (lvl + 1) = false := hleaf
      unfold getPhysAddrRecHelper
      rw [if_pos hexists, if_neg (Bool.eq_false_iff.mp hstep), nextTableOrFrame_of_exists hexists]
      exact ih h

end Walk

/-! ## The offset -/

section Offset

variable {la : LinAddr} {e : SimplePte} {l : ℕ}

theorem getLsbD_setOffset (w : Word) {n : ℕ} (hn : n ≤ 64) (value : Word) (i : ℕ) :
    (setOffset w n value).getLsbD i = if i < n then value.getLsbD i else w.getLsbD i := by
  have hvalue : ∀ i, 64 ≤ i → value.getLsbD i = false := fun i hi => BitVec.getLsbD_of_ge _ _ hi
  have hw : ∀ i, 64 ≤ i → w.getLsbD i = false := fun i hi => BitVec.getLsbD_of_ge _ _ hi
  simp only [setOffset, BitVec.getLsbD_or, BitVec.getLsbD_shiftLeft, BitVec.getLsbD_ushiftRight,
    BitVec.getLsbD_setWidth]
  grind

theorem leafLevel_cases (h1 : 1 ≤ l) (h3 : l ≤ pdptLevel) : l = 1 ∨ l = 2 ∨ l = 3 := by
  have hle : l ≤ 3 := h3
  omega

/-- `injectOffset` sets the offset of its local. -/
theorem injectOffset_eq (pa : Word) (h1 : 1 ≤ l) (h3 : l ≤ pdptLevel) :
    injectOffset pa la l = setOffset pa (pgShifts l) la := by
  obtain rfl | rfl | rfl := leafLevel_cases h1 h3
  all_goals rfl

/-- A leaf maps a frame of the size of its page. -/
theorem getLsbD_toAddr_of_leaf (h1 : 1 ≤ l) (h3 : l ≤ pdptLevel) (hleaf : e.isLeaf l = true)
    {i : ℕ} (hi : i < pgShifts l) : (toAddr (e.pageTabEntToPfn l)).getLsbD i = false := by
  obtain rfl | rfl | rfl := leafLevel_cases h1 h3
  · simp only [pgShifts] at hi
    simp [toAddr, hi]
  all_goals
    have hmaps : e.maps = true := hleaf
    simp only [pgShifts] at hi
    simp only [toAddr, SimplePte.pageTabEntToPfn, hmaps, if_true, BitVec.getLsbD_shiftLeft,
      BitVec.getLsbD_setWidth]
    grind

/-- The offset is added to a base that has zeros in its place. -/
theorem physAddr_eq (h1 : 1 ≤ l) (h3 : l ≤ pdptLevel) (hleaf : e.isLeaf l = true) :
    physAddr la e l = setOffset (toAddr (e.pageTabEntToPfn l)) (pgShifts l) la := by
  have hn : pgShifts l ≤ 64 := by
    obtain rfl | rfl | rfl := leafLevel_cases h1 h3
    all_goals decide
  have hbase := fun i (hi : i < pgShifts l) => getLsbD_toAddr_of_leaf h1 h3 hleaf hi
  unfold physAddr
  rw [BitVec.add_eq_or_of_and_eq_zero]
  · refine BitVec.eq_of_getLsbD_eq fun i hi => ?_
    rw [getLsbD_setOffset _ hn, BitVec.getLsbD_or, BitVec.getLsbD_setWidth, BitVec.getLsbD_setWidth]
    by_cases hlow : i < pgShifts l
    · rw [hbase i hlow]
      simp [hlow, hi]
    · simp [hlow]
  · refine BitVec.eq_of_getLsbD_eq fun i hi => ?_
    rw [BitVec.getLsbD_and, BitVec.getLsbD_setWidth, BitVec.getLsbD_setWidth]
    by_cases hlow : i < pgShifts l
    · simp [hbase i hlow]
    · simp [hlow]

/-- Injecting the offset gives the address if the local happens to hold the base. -/
theorem injectOffset_eq_physAddr_iff (pa : Word) (h1 : 1 ≤ l) (h3 : l ≤ pdptLevel)
    (hleaf : e.isLeaf l = true) : injectOffset pa la l = physAddr la e l ↔
      pa >>> pgShifts l = toAddr (e.pageTabEntToPfn l) >>> pgShifts l := by
  have hn : pgShifts l ≤ 64 := by
    obtain rfl | rfl | rfl := leafLevel_cases h1 h3
    all_goals decide
  rw [injectOffset_eq pa h1 h3, physAddr_eq h1 h3 hleaf]
  refine ⟨fun heq => ?_, fun heq => ?_⟩
  · refine BitVec.eq_of_getLsbD_eq fun i hi => ?_
    have hbit := congrArg (fun w => w.getLsbD (pgShifts l + i)) heq
    simp only [getLsbD_setOffset _ hn, if_neg (Nat.not_lt.mpr (Nat.le_add_right _ i))] at hbit
    rw [BitVec.getLsbD_ushiftRight, BitVec.getLsbD_ushiftRight, hbit]
  · rw [setOffset, setOffset, heq]

/-- Some content of the local is wrong: the highest bit of a base is not set. -/
theorem injectOffset_allOnes_ne (h1 : 1 ≤ l) (h3 : l ≤ pdptLevel) (hleaf : e.isLeaf l = true) :
    injectOffset (BitVec.allOnes 64) la l ≠ physAddr la e l := by
  intro heq
  have hshift := (injectOffset_eq_physAddr_iff _ h1 h3 hleaf).mp heq
  have hbit := congrArg (fun w => w.getLsbD (63 - pgShifts l)) hshift
  have hn : pgShifts l ≤ 63 := by
    obtain rfl | rfl | rfl := leafLevel_cases h1 h3
    all_goals decide
  simp [toAddr, Nat.add_sub_cancel' hn] at hbit

end Offset

/-- Whatever the table and the mapped address: the two translations return the physical address for
those contents of the uninitialised local that have the base of the frame, and for no others. -/
theorem getPhysAddr_eq_physAddr_iff {m : Pfn → Key → SimplePte} {la : LinAddr} {lvl l : ℕ}
    {root : Pfn} {e : SimplePte} (h : pageTables.leaf m lvl root la.path = some (l, e))
    (h3 : l ≤ pdptLevel) :
    (∀ pa, (getPhysAddrRecHelper pa m la root lvl = .ok (physAddr la e l) ↔
        pa >>> pgShifts l = toAddr (e.pageTabEntToPfn l) >>> pgShifts l) ∧
      (getPhysAddrLamb pa m la root lvl = .ok (physAddr la e l) ↔
        pa >>> pgShifts l = toAddr (e.pageTabEntToPfn l) >>> pgShifts l)) ∧
    (¬ ∀ pa, getPhysAddrRecHelper pa m la root lvl = .ok (physAddr la e l)) ∧
    ¬ ∀ pa, getPhysAddrLamb pa m la root lvl = .ok (physAddr la e l) := by
  obtain ⟨h1, -, -, hleaf⟩ := leaf_spec h
  refine ⟨fun pa => ?_, fun hall => ?_, fun hall => ?_⟩
  · rw [getPhysAddrRecHelper_of_leaf pa h, getPhysAddrLamb_of_leaf pa h, Except.ok.injEq,
      injectOffset_eq_physAddr_iff pa h1 h3 hleaf]
    exact ⟨Iff.rfl, Iff.rfl⟩
  · have hones := hall (BitVec.allOnes 64)
    rw [getPhysAddrRecHelper_of_leaf _ h] at hones
    exact injectOffset_allOnes_ne h1 h3 hleaf (Except.ok.inj hones)
  · have hones := hall (BitVec.allOnes 64)
    rw [getPhysAddrLamb_of_leaf _ h] at hones
    exact injectOffset_allOnes_ne h1 h3 hleaf (Except.ok.inj hones)

/-- Four tables, in the frames 1 to 4, that map the first page of memory to the frame 5. -/
def fourTables : Pfn → Key → SimplePte := fun t k =>
  if k = 0 ∧ 1 ≤ t ∧ t ≤ 4 then SimplePte.setPte (t + 1) false true true true false else 0

/-- Byte 8 of the first page is byte 8 of the frame 5; with a local that is zero, the translations
return the offset alone. -/
theorem getPhysAddr_fourTables :
    (pageTables.leaf fourTables pml4Level 1 (8 : LinAddr).path).map
      (fun p => (p.1, physAddr 8 p.2 p.1)) = some (1, 0x5008) ∧
    getPhysAddrRecHelper 0 fourTables 8 1 pml4Level = .ok 8 ∧
    getPhysAddrLamb 0 fourTables 8 1 pml4Level = .ok 8 ∧
    ¬ ∀ pa, getPhysAddrRecHelper pa fourTables 8 1 pml4Level = .ok 0x5008 ∧
      getPhysAddrLamb pa fourTables 8 1 pml4Level = .ok 0x5008 := by
  refine ⟨by decide, by decide, by decide, fun hall => ?_⟩
  exact absurd (hall 0).1 (by decide)

/-- There the translations are right for a local that holds the base of the frame 5. -/
theorem getPhysAddr_eq_physAddr_iff_fourTables :
    getPhysAddrRecHelper 0x5000 fourTables 8 1 pml4Level = .ok 0x5008 ∧
    ¬ ∀ pa, getPhysAddrLamb pa fourTables 8 1 pml4Level = .ok 0x5008 := by
  have hleaf : pageTables.leaf fourTables pml4Level 1 (8 : LinAddr).path =
      some (1, SimplePte.setPte 5 false true true true false) := by decide
  have hresult := getPhysAddr_eq_physAddr_iff hleaf (by decide)
  exact ⟨(hresult.1 0x5000).1.mpr (by decide), hresult.2.2⟩

end UmPgTblMgmt

end Umm
