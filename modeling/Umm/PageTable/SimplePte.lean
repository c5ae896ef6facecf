import Mathlib.Logic.Function.Iterate
import Mathlib.Tactic.Common

/-!
# Page-table entries and linear addresses

`SimplePte` is the 64 bits of an x86-64 paging-structure entry and `LinAddr` those of a linear
address.  Frames are named by their page-frame numbers: an entry has room for 40 bits of them.

The linear addresses of the slot are those below one entry of the top-level table, so that a page of
the slot is given by the three keys of the levels below it.
-/

namespace Umm

/-- `Pfn`: the number of a page frame. -/
abbrev Pfn := BitVec 40

/-- A machine word. -/
abbrev Word := BitVec 64

/-- An index into a table. -/
abbrev Key := BitVec 9

/-- `TBL_LEVEL`. -/
abbrev tblLevel : ℕ := 1

/-- `DIR_LEVEL`. -/
abbrev dirLevel : ℕ := 2

/-- `PDPT_LEVEL`. -/
abbrev pdptLevel : ℕ := 3

/-- `PML4_LEVEL`. -/
abbrev pml4Level : ℕ := 4

/-! ## Entries -/

/-- `simple_pte`. -/
abbrev SimplePte := Word

namespace SimplePte

/-- `SEL`: the entry is in use. -/
def sel (e : SimplePte) : Bool := e.getLsbD 0

/-- `RW`: writes are allowed. -/
def rw (e : SimplePte) : Bool := e.getLsbD 1

/-- `US`: user-mode accesses are allowed. -/
def us (e : SimplePte) : Bool := e.getLsbD 2

/-- `A`: the entry has been used for a translation. -/
def a (e : SimplePte) : Bool := e.getLsbD 5

/-- `DIRTY`: the page has been written. -/
def dirty (e : SimplePte) : Bool := e.getLsbD 6

/-- `MAPS`: the entry maps a large page. -/
def maps (e : SimplePte) : Bool := e.getLsbD 7

/-- `PG_TBL_ADDR`, which is also the `PAGE_NUMBER` of a 4K page. -/
def pgTblAddr (e : SimplePte) : Pfn := e.extractLsb' 12 40

/-- `XD`: instruction fetches are not allowed. -/
def xd (e : SimplePte) : Bool := e.getLsbD 63

/-- `pageTabEntToAddr`, as a page-frame number. -/
def pageTabEntToPfn (e : SimplePte) (lvl : ℕ) : Pfn :=
  match lvl with
  | 4 => e.pgTblAddr
  | 3 => if e.maps then (e.extractLsb' 30 22).setWidth 40 <<< 18 else e.pgTblAddr
  | 2 => if e.maps then (e.extractLsb' 21 31).setWidth 40 <<< 9 else e.pgTblAddr
  | 1 => e.pgTblAddr
  | _ => 0

/-- A word with one bit. -/
def bit (b : Bool) (i : ℕ) : Word := (BitVec.ofBool b).setWidth 64 <<< i

/-- `setPte`: an entry with the given address and bits. -/
def setPte (tab : Pfn) (dirty acc rw us xd : Bool) : SimplePte :=
  bit true 0 ||| bit rw 1 ||| bit us 2 ||| bit acc 5 ||| bit dirty 6 ||| bit xd 63 |||
    tab.setWidth 64 <<< 12

/-- `exists`. -/
def «exists» (e : SimplePte) : Bool := e.sel

/-- `isLeaf`. -/
def isLeaf (e : SimplePte) (lvl : ℕ) : Bool :=
  lvl == tblLevel || e.maps

/-- The processor marks the page of the entry as written. -/
def setDirty (e : SimplePte) : SimplePte := e ||| bit true 6

/-- The processor marks the entry as used. -/
def setAccessed (e : SimplePte) : SimplePte := e ||| bit true 5

/-- `raw | 1 << 2`: user-mode accesses are allowed. -/
def setUser (e : SimplePte) : SimplePte := e ||| bit true 2

section Fields

variable (tab : Pfn) (d acc w us xd : Bool)

/-- The one bit of `bit`. -/
theorem getElem_bit (b : Bool) (i j : ℕ) (hj : j < 64) :
    (bit b i)[j] = (decide (j = i) && b) := by
  rcases Nat.lt_trichotomy j i with h | rfl | h
  · simp [bit, h, Nat.ne_of_lt h]
  · cases b <;> simp [bit]
  · have hne : j - i ≠ 0 := by omega
    cases b <;> simp [bit, Nat.not_lt_of_lt h, Nat.ne_of_gt h, hne]

/-- An entry that is set is present. -/
@[simp] theorem sel_setPte : (setPte tab d acc w us xd).sel = true := by
  simp [setPte, sel, getElem_bit]

/-- It has the write permission that is asked for. -/
@[simp] theorem rw_setPte : (setPte tab d acc w us xd).rw = w := by
  simp [setPte, rw, getElem_bit]

/-- It has the user permission that is asked for. -/
@[simp] theorem us_setPte : (setPte tab d acc w us xd).us = us := by
  simp [setPte, SimplePte.us, getElem_bit]

/-- It has the `A` flag that is asked for. -/
@[simp] theorem a_setPte : (setPte tab d acc w us xd).a = acc := by
  simp [setPte, a, getElem_bit]

/-- It has the `DIRTY` flag that is asked for. -/
@[simp] theorem dirty_setPte : (setPte tab d acc w us xd).dirty = d := by
  simp [setPte, dirty, getElem_bit]

/-- It never maps a large page. -/
@[simp] theorem maps_setPte : (setPte tab d acc w us xd).maps = false := by
  simp [setPte, maps, getElem_bit]

/-- It has the `XD` flag that is asked for. -/
@[simp] theorem xd_setPte : (setPte tab d acc w us xd).xd = xd := by
  simp [setPte, SimplePte.xd, getElem_bit]

/-- It leads to the frame. -/
@[simp] theorem pgTblAddr_setPte : (setPte tab d acc w us xd).pgTblAddr = tab := by
  ext i hi
  rw [pgTblAddr, BitVec.getElem_extractLsb', BitVec.getLsbD_eq_getElem (by omega)]
  simp [setPte, getElem_bit, show 12 + i ≠ 1 by omega, show 12 + i ≠ 2 by omega,
    show 12 + i ≠ 5 by omega, show 12 + i ≠ 6 by omega, show 12 + i ≠ 63 by omega,
    BitVec.getLsbD_eq_getElem hi]

variable (e : SimplePte)

/-- Setting `DIRTY` keeps the presence. -/
@[simp] theorem sel_setDirty : e.setDirty.sel = e.sel := by
  simp [setDirty, sel, getElem_bit]

/-- It keeps the write permission. -/
@[simp] theorem rw_setDirty : e.setDirty.rw = e.rw := by
  simp [setDirty, rw, getElem_bit]

/-- It keeps the user permission. -/
@[simp] theorem us_setDirty : e.setDirty.us = e.us := by
  simp [setDirty, SimplePte.us, getElem_bit]

/-- It keeps `XD`. -/
@[simp] theorem xd_setDirty : e.setDirty.xd = e.xd := by
  simp [setDirty, SimplePte.xd, getElem_bit]

/-- It keeps `A`. -/
@[simp] theorem a_setDirty : e.setDirty.a = e.a := by
  simp [setDirty, a, getElem_bit]

/-- It keeps `MAPS`. -/
@[simp] theorem maps_setDirty : e.setDirty.maps = e.maps := by
  simp [setDirty, maps, getElem_bit]

/-- The entry is dirty. -/
@[simp] theorem dirty_setDirty : e.setDirty.dirty = true := by
  simp [setDirty, dirty, getElem_bit]

/-- An accessed entry is marked already. -/
theorem setAccessed_of_a (he : e.a = true) : e.setAccessed = e := by
  ext i hi
  rw [setAccessed, BitVec.getElem_or, getElem_bit]
  by_cases h5 : i = 5
  · subst h5
    simpa [a, BitVec.getLsbD_eq_getElem] using he
  · simp [h5]

/-- A dirty entry is marked already. -/
theorem setDirty_of_dirty (he : e.dirty = true) : e.setDirty = e := by
  ext i hi
  rw [setDirty, BitVec.getElem_or, getElem_bit]
  by_cases h6 : i = 6
  · subst h6
    simpa [dirty, BitVec.getLsbD_eq_getElem] using he
  · simp [h6]

/-- Setting one of the bits below the address, other than `MAPS`, changes no bit of the address. -/
theorem pageTabEntToPfn_or_bit (lvl : ℕ) {n : ℕ} (hn : n < 12) (hmaps : n ≠ 7) :
    pageTabEntToPfn (e ||| bit true n) lvl = e.pageTabEntToPfn lvl := by
  have hfield : ∀ start len, 12 ≤ start → start + len ≤ 64 →
      (e ||| bit true n).extractLsb' start len = e.extractLsb' start len := by
    intro start len hstart hlen
    ext i hi
    rw [BitVec.getElem_extractLsb', BitVec.getElem_extractLsb',
      BitVec.getLsbD_eq_getElem (by omega), BitVec.getLsbD_eq_getElem (by omega)]
    simp [getElem_bit, show start + i ≠ n by omega]
  have haddr : pgTblAddr (e ||| bit true n) = e.pgTblAddr := hfield 12 40 (by decide) (by decide)
  have hkept : maps (e ||| bit true n) = e.maps := by
    simp [maps, getElem_bit, Ne.symm hmaps]
  unfold pageTabEntToPfn
  split
  · exact haddr
  · rw [hkept, haddr, hfield 30 22 (by decide) (by decide)]
  · rw [hkept, haddr, hfield 21 31 (by decide) (by decide)]
  · exact haddr
  · rfl

/-- Marking a page as written changes no bit of its address. -/
theorem pageTabEntToPfn_setDirty (lvl : ℕ) :
    e.setDirty.pageTabEntToPfn lvl = e.pageTabEntToPfn lvl :=
  pageTabEntToPfn_or_bit e lvl (by decide) (by decide)

/-- Opening an entry changes the bit `US` only. -/
theorem getLsbD_setUser (i : ℕ) : e.setUser.getLsbD i = (decide (i = 2) || e.getLsbD i) := by
  by_cases hi : i < 64
  · rw [setUser, BitVec.getLsbD_or, BitVec.getLsbD_eq_getElem hi, BitVec.getLsbD_eq_getElem hi,
      getElem_bit, Bool.and_true, Bool.or_comm]
  · rw [BitVec.getLsbD_of_ge _ _ (by omega), BitVec.getLsbD_of_ge _ _ (by omega),
      decide_eq_false (by omega), Bool.or_false]

/-- Opening an entry to the user keeps its presence. -/
@[simp] theorem sel_setUser : e.setUser.sel = e.sel := getLsbD_setUser e 0

/-- It keeps the write permission. -/
@[simp] theorem rw_setUser : e.setUser.rw = e.rw := getLsbD_setUser e 1

/-- The user may use the entry. -/
@[simp] theorem us_setUser : e.setUser.us = true := getLsbD_setUser e 2

/-- It keeps `A`. -/
@[simp] theorem a_setUser : e.setUser.a = e.a := getLsbD_setUser e 5

/-- It keeps `DIRTY`. -/
@[simp] theorem dirty_setUser : e.setUser.dirty = e.dirty := getLsbD_setUser e 6

/-- It keeps `MAPS`. -/
@[simp] theorem maps_setUser : e.setUser.maps = e.maps := getLsbD_setUser e 7

/-- It keeps `XD`. -/
@[simp] theorem xd_setUser : e.setUser.xd = e.xd := getLsbD_setUser e 63

/-- It leads to the same frame. -/
theorem pageTabEntToPfn_setUser (lvl : ℕ) :
    e.setUser.pageTabEntToPfn lvl = e.pageTabEntToPfn lvl :=
  pageTabEntToPfn_or_bit e lvl (by decide) (by decide)

/-- Opening an entry twice does no more than opening it once. -/
theorem setUser_setUser : e.setUser.setUser = e.setUser := by
  rw [setUser, setUser, BitVec.or_assoc, BitVec.or_self]

end Fields

end SimplePte

/-! ## Linear addresses -/

/-- `lin_addr`. -/
abbrev LinAddr := Word

/-- `SLOT_PML4_NUM`, also `kSlotPML4Offset`. -/
def slotPml4Num : Key := 0x180

/-- `kSlotStartVAddr`. -/
def slotStartVAddr : LinAddr := 0xFFFFC00000000000

/-- `kSlotEndVAddr`. -/
def slotEndVAddr : LinAddr := 0xFFFFC07FFFFFFFFF

/-- `valid_address`. -/
def validAddress (vaddr : LinAddr) : Bool :=
  vaddr != 0 && (decide (slotStartVAddr ≤ vaddr) && decide (vaddr < slotEndVAddr))

namespace LinAddr

/-- `operator[]`: the key of a level. -/
def index (la : LinAddr) (idx : ℕ) : Key :=
  ((fun tmp : Word => tmp >>> 9)^[idx - 1] (la >>> 12)).setWidth 9

/-- `Pfn::Down(la).ToAddr()`: the start of the page of an address. -/
def pageDown (la : LinAddr) : LinAddr := la >>> 12 <<< 12

/-- The word of its page that an address is in. -/
def word (la : LinAddr) : Key := la.extractLsb' 3 9

/-- The path of an address through the tables. -/
def path (la : LinAddr) : ℕ → Key := fun lvl => la.index lvl

end LinAddr

/-- `reconstructLinAddrPgFromOffsets`. -/
def reconstructLinAddrPgFromOffsets (idx : ℕ → Key) : LinAddr :=
  let la := (idx pml4Level).setWidth 64 <<< 39 ||| (idx pdptLevel).setWidth 64 <<< 30 |||
    (idx dirLevel).setWidth 64 <<< 21 ||| (idx tblLevel).setWidth 64 <<< 12
  if 0x100 ≤ idx pml4Level then la ||| (0xffff : Word) <<< 48 else la

namespace LinAddr

/-- The index at a level, as a slice of the address. -/
theorem index_eq (la : LinAddr) (idx : ℕ) : la.index idx = la.extractLsb' (12 + 9 * (idx - 1)) 9 := by
  have hshift : ∀ n, (fun tmp : Word => tmp >>> 9)^[n] (la >>> 12) = la >>> (12 + 9 * n) := by
    intro n
    induction n with
    | zero => rfl
    | succ n ih =>
      rw [Function.iterate_succ_apply', ih, ← BitVec.shiftRight_add]
      congr 1
  ext i hi
  rw [index, hshift, BitVec.getElem_setWidth, BitVec.getLsbD_ushiftRight, BitVec.getElem_extractLsb']

/-- Rounding down to a page clears the twelve low bits. -/
theorem getLsbD_pageDown (la : LinAddr) (i : ℕ) :
    la.pageDown.getLsbD i = (decide (12 ≤ i) && la.getLsbD i) := by
  by_cases hi : i < 64
  · by_cases h : 12 ≤ i
    · simp [pageDown, h, hi, show 12 + (i - 12) = i by omega, Nat.not_lt.mpr h]
    · simp [pageDown, h, Nat.lt_of_not_le h]
  · rw [BitVec.getLsbD_of_ge _ _ (by omega), BitVec.getLsbD_of_ge _ _ (by omega), Bool.and_false]

/-- Rounding down, on numbers. -/
theorem toNat_pageDown (la : LinAddr) : la.pageDown.toNat = la.toNat / 4096 * 4096 := by
  have hlt := la.isLt
  simp only [pageDown, BitVec.toNat_shiftLeft, BitVec.toNat_ushiftRight, Nat.shiftRight_eq_div_pow,
    Nat.shiftLeft_eq]
  omega

/-- A page begins at itself. -/
@[simp] theorem pageDown_pageDown (la : LinAddr) : la.pageDown.pageDown = la.pageDown := by
  refine BitVec.eq_of_getLsbD_eq fun i _ => ?_
  rw [getLsbD_pageDown, getLsbD_pageDown, ← Bool.and_assoc, Bool.and_self]

/-- The addresses of a page have the same indices. -/
@[simp] theorem index_pageDown (la : LinAddr) (idx : ℕ) : la.pageDown.index idx = la.index idx := by
  rw [index_eq, index_eq]
  refine BitVec.eq_of_getLsbD_eq fun i hi => ?_
  rw [BitVec.getLsbD_extractLsb', BitVec.getLsbD_extractLsb', getLsbD_pageDown,
    decide_eq_true (by omega : 12 ≤ 12 + 9 * (idx - 1) + i), Bool.true_and]

/-- They have the same path. -/
@[simp] theorem path_pageDown (la : LinAddr) : la.pageDown.path = la.path :=
  funext la.index_pageDown

/-- The bits of an address above its page offset, level by level. -/
theorem getLsbD_index (la : LinAddr) {lvl i : ℕ} (hi : i < 9) :
    (la.index lvl).getLsbD i = la.getLsbD (12 + 9 * (lvl - 1) + i) := by
  rw [index_eq, BitVec.getLsbD_extractLsb', decide_eq_true hi, Bool.true_and]

/-- The addresses of the slot agree on the bits above the three levels of the slot's tables. -/
theorem getLsbD_of_valid {la : LinAddr} (hla : validAddress la = true) {i : ℕ} (hi : 39 ≤ i) :
    la.getLsbD i = slotStartVAddr.getLsbD i := by
  have hle : slotStartVAddr.toNat ≤ la.toNat ∧ la.toNat < slotEndVAddr.toNat := by
    simp only [validAddress, Bool.and_eq_true, decide_eq_true_eq] at hla
    exact hla.2
  have hhigh : la.toNat / 2 ^ 39 = slotStartVAddr.toNat / 2 ^ 39 := by
    simp only [slotStartVAddr, slotEndVAddr] at hle ⊢
    simp at hle ⊢
    omega
  rw [BitVec.getLsbD, BitVec.getLsbD]
  obtain ⟨j, rfl⟩ : ∃ j, i = j + 39 := ⟨i - 39, by omega⟩
  rw [← Nat.testBit_div_two_pow, ← Nat.testBit_div_two_pow, hhigh]

/-- A page of the slot is given by its path. -/
theorem pageDown_eq_of_index {la lb : LinAddr} (hla : validAddress la = true)
    (hlb : validAddress lb = true) (hpath : ∀ lvl, 1 ≤ lvl → lvl ≤ 3 → la.index lvl = lb.index lvl) :
    la.pageDown = lb.pageDown := by
  refine BitVec.eq_of_getLsbD_eq fun i _ => ?_
  rw [getLsbD_pageDown, getLsbD_pageDown]
  by_cases h12 : 12 ≤ i
  · by_cases h39 : 39 ≤ i
    · rw [getLsbD_of_valid hla h39, getLsbD_of_valid hlb h39]
    · -- the bit is bit `(i - 12) % 9` of the key of level `(i - 12) / 9 + 1`
      have hbit : 12 + 9 * ((i - 12) / 9 + 1 - 1) + (i - 12) % 9 = i := by omega
      have hkey := hpath ((i - 12) / 9 + 1) (by omega) (by omega)
      have hlt : (i - 12) % 9 < 9 := Nat.mod_lt _ (by omega)
      have hget : (la.index ((i - 12) / 9 + 1)).getLsbD ((i - 12) % 9) = _ := getLsbD_index la hlt
      rw [hkey, getLsbD_index lb hlt, hbit] at hget
      rw [hget]
  · simp [h12]

end LinAddr

/-- The keys can be read back from a reconstructed address. -/
theorem index_reconstruct (idx : ℕ → Key) {lvl : ℕ} (h1 : 1 ≤ lvl) (h4 : lvl ≤ 4) :
    (reconstructLinAddrPgFromOffsets idx).index lvl = idx lvl := by
  refine BitVec.eq_of_getLsbD_eq fun i hi => ?_
  rw [LinAddr.getLsbD_index _ hi]
  -- the canonical form only sets bits above the keys
  have hlow : ∀ j < 48, (reconstructLinAddrPgFromOffsets idx).getLsbD j =
      ((idx 4).setWidth 64 <<< 39 ||| (idx 3).setWidth 64 <<< 30 |||
        (idx 2).setWidth 64 <<< 21 ||| (idx 1).setWidth 64 <<< 12 : Word).getLsbD j := by
    intro j hj
    unfold reconstructLinAddrPgFromOffsets
    by_cases hhalf : 0x100 ≤ idx pml4Level
    · rw [if_pos hhalf, BitVec.getLsbD_or, BitVec.getLsbD_shiftLeft, decide_eq_true hj]
      simp only [Bool.not_true, Bool.and_false, Bool.false_and, Bool.or_false]
    · rw [if_neg hhalf]
  rw [hlow _ (by omega)]
  -- at each level, the fields of the other levels are out of range
  have hout : ∀ (k : Key) j, 9 ≤ j → k.getLsbD j = false := fun k j hj =>
    BitVec.getLsbD_of_ge k j hj
  obtain rfl | rfl | rfl | rfl : lvl = 1 ∨ lvl = 2 ∨ lvl = 3 ∨ lvl = 4 := by omega
  all_goals
    simp only [BitVec.getLsbD_or, BitVec.getLsbD_shiftLeft, BitVec.getLsbD_setWidth]
    grind

end Umm
