import Umm.Loader.Bounds

/-!
# The regions of an image

`WellLaid` says how the sections of an image must be laid out for the loader: in the order of their
addresses, below the end of the slot, with the specially named ones directly behind others and with
`.bss` as the last one.  Of such an image, the loader makes a list of regions in the order of their
addresses, each from a `Group` of sections: a page-aligned one and the run of specially named ones
behind it.  The `usr` region is what is left of the slot.

So the region list is `Laid`, and the region of the page of an address is that of the group that the
section of the address is in.  Its data pointer is set by the first section of the group only.
-/

namespace Umm

open Foundations

namespace Region

/-- The address behind the last one, in a region that does not wrap around. -/
def stop (reg : Region) : ℕ := reg.start.toNat + reg.length.toNat

theorem toNat_slotEndVAddr : slotEndVAddr.toNat = 0xFFFFC07FFFFFFFFF := rfl

theorem addrIsInRegion_iff {reg : Region} {vaddr : LinAddr} (h : reg.stop ≤ slotEndVAddr.toNat + 1) :
    reg.addrIsInRegion vaddr = true ↔ reg.start.toNat ≤ vaddr.toNat ∧ vaddr.toNat < reg.stop := by
  rw [toNat_slotEndVAddr, stop] at h
  rw [addrIsInRegion, Bool.and_eq_true, decide_eq_true_eq, decide_eq_true_eq, BitVec.le_def,
    BitVec.lt_def, BitVec.toNat_add, Nat.mod_eq_of_lt (by omega), stop]

/-- Regions that come one behind the other have no address in common. -/
theorem not_both_of_stop_le {reg reg' : Region} (h : reg.stop ≤ slotEndVAddr.toNat + 1)
    (h' : reg'.stop ≤ slotEndVAddr.toNat + 1) (hle : reg.stop ≤ reg'.start.toNat) (vaddr : LinAddr) :
    ¬ (reg.addrIsInRegion vaddr = true ∧ reg'.addrIsInRegion vaddr = true) := by
  rw [addrIsInRegion_iff h, addrIsInRegion_iff h']
  omega

end Region

namespace ElfLoader

namespace Elf

/-! ## Layouts -/

variable (elf : Elf)

/-- The section has addresses. -/
def Mapped (i : ℕ) : Prop := (elf.sht i).shSize ≠ 0 ∧ elf.Alloc i

/-- The address behind the last one of a section that does not wrap around. -/
def sectionEnd (i : ℕ) : ℕ := (elf.sht i).shAddr.toNat + (elf.sht i).shSize.toNat

instance (i : ℕ) : Decidable (elf.Alloc i) := inferInstanceAs (Decidable (_ ≠ _))

instance (i : ℕ) : Decidable (elf.Mapped i) := inferInstanceAs (Decidable (_ ∧ _))

instance (i : ℕ) : Decidable (elf.Aligned i) := inferInstanceAs (Decidable (_ = _))

instance (i : ℕ) : Decidable (elf.IsSymbols i) := inferInstanceAs (Decidable (_ ∨ _))

/-- An image that is accepted and laid out as the loader expects. -/
structure WellLaid : Prop where
  /-- The checks of the header succeed. -/
  accepted : (elfCheckFile elf && elfCheckSupported elf) = true
  /-- There are names. -/
  names : elf.strTab ≠ 0
  /-- The sections that have addresses are in the order of these. -/
  ascending : ∀ j < elf.shnum, ∀ i < j, elf.Mapped i → elf.Mapped j →
    elf.sectionEnd i ≤ (elf.sht j).shAddr.toNat
  /-- They end with the slot at the latest. -/
  below : ∀ i < elf.shnum, elf.Mapped i → elf.sectionEnd i ≤ slotEndVAddr.toNat + 1
  /-- Those that are not absorbed begin at page boundaries. -/
  aligned : ∀ i < elf.shnum, elf.Mapped i → elf.special i = false → elf.Aligned i
  /-- A specially named section has addresses, and is behind one that has addresses and is not
  `.bss`. -/
  absorbed : ∀ i < elf.shnum, elf.special i = true →
    elf.Mapped i ∧ ∃ j < i, j + 1 = i ∧ elf.Mapped j ∧ elf.name j ≠ ".bss"
  /-- The symbol table and its strings are not in the address space. -/
  symbols : ∀ i < elf.shnum, elf.IsSymbols i → ¬ elf.Alloc i
  /-- There is one `.bss`.  It has addresses, it is the last section that is in the address space, and
  it is not the last one of the table. -/
  bss : ∃ b < elf.shnum, b + 1 < elf.shnum ∧ elf.Mapped b ∧ elf.name b = ".bss" ∧
    ∀ i < elf.shnum, (elf.name i = ".bss" → i = b) ∧ (elf.Alloc i → i ≤ b)

/-- The section `b` gets a region, together with the run of `k` sections behind it. -/
structure Group (b k : ℕ) : Prop where
  /-- The first section is in the table. -/
  lt : b < elf.shnum
  /-- It has addresses. -/
  mapped : elf.Mapped b
  /-- It is not absorbed itself. -/
  base : elf.special b = false
  /-- The others are. -/
  run : elf.SpecialRun (elf.shnum - b) b k

variable {elf} {b i j k : ℕ} {reg : Region}

/-! ## The region of a group -/

@[simp] theorem growRun_start : (elf.growRun k i reg).start = reg.start := by
  induction k generalizing i reg with
  | zero => rfl
  | succ k ih => exact ih

@[simp] theorem growRun_name : (elf.growRun k i reg).name = reg.name := by
  induction k generalizing i reg with
  | zero => rfl
  | succ k ih => exact ih

@[simp] theorem growRun_data : (elf.growRun k i reg).data = reg.data := by
  induction k generalizing i reg with
  | zero => rfl
  | succ k ih => exact ih

/-- A region is extended up to the end of the section that is added. -/
theorem stop_growRegion {nxtSh : Shdr} (hle : reg.stop ≤ nxtSh.shAddr.toNat)
    (hend : nxtSh.shAddr.toNat + nxtSh.shSize.toNat ≤ slotEndVAddr.toNat + 1) :
    (growRegion reg nxtSh).stop = nxtSh.shAddr.toNat + nxtSh.shSize.toNat := by
  rw [Region.toNat_slotEndVAddr] at hend
  unfold Region.stop at hle ⊢
  have hsum : (reg.start + reg.length).toNat = reg.start.toNat + reg.length.toNat := by
    rw [BitVec.toNat_add, Nat.mod_eq_of_lt (by omega)]
  simp only [growRegion]
  by_cases hgap : reg.start + reg.length < nxtSh.shAddr
  · rw [if_pos hgap]
    simp only [BitVec.toNat_add, BitVec.toNat_sub, hsum]
    omega
  · rw [if_neg hgap, BitVec.toNat_add]
    rw [BitVec.lt_def, hsum] at hgap
    omega

end Elf

namespace Elf.WellLaid

variable {elf : Elf} {b i j k : ℕ} {reg : Region}

/-- A section that has addresses gets a region when the loop comes to it. -/
theorem getsRegion_iff (hlaid : elf.WellLaid) (hi : i < elf.shnum) :
    elf.GetsRegion i ↔ elf.Mapped i :=
  ⟨fun h => ⟨h.1, h.2.2⟩, fun h => ⟨h.1, fun hsymbols => hlaid.symbols i hi hsymbols h.2, h.2⟩⟩

/-- A group ends in the table, and `.bss` is a group of its own. -/
theorem group_lt (hlaid : elf.WellLaid) (hgroup : elf.Group b k) :
    b + k + 1 < elf.shnum ∧ (elf.name b = ".bss" → k = 0) := by
  obtain ⟨l, hl, hnext, -, hbss, hunique⟩ := hlaid.bss
  have hle : b ≤ l := (hunique b hgroup.lt).2 hgroup.mapped.2
  have hbehind : elf.special (l + 1) = false := by
    refine Bool.eq_false_iff.mpr fun hspecial => ?_
    obtain ⟨-, j, -, hj, -, hne⟩ := hlaid.absorbed (l + 1) hnext hspecial
    obtain rfl : j = l := by omega
    exact hne hbss
  have hend := hgroup.run.lt_of_end (j := l + 1) (by omega) hbehind
  refine ⟨by omega, fun hname => ?_⟩
  obtain rfl := (hunique b hgroup.lt).1 hname
  omega

/-- The sections of a group have addresses. -/
theorem mapped_of_group (hlaid : elf.WellLaid) (hgroup : elf.Group b k) (hbi : b ≤ i)
    (hik : i ≤ b + k) : elf.Mapped i := by
  rcases Nat.lt_or_eq_of_le hbi with hlt | rfl
  · have hend := (hlaid.group_lt hgroup).1
    exact (hlaid.absorbed i (by omega) (hgroup.run.special i hlt hik)).1
  · exact hgroup.mapped

/-- A region that ends with a section is extended up to the last one of the run behind it. -/
theorem stop_growRun (hlaid : elf.WellLaid) (hlt : i + k < elf.shnum)
    (hmapped : ∀ j, i ≤ j → j ≤ i + k → elf.Mapped j) (hreg : reg.stop = elf.sectionEnd i) :
    (elf.growRun k i reg).stop = elf.sectionEnd (i + k) := by
  induction k generalizing i reg with
  | zero => exact hreg
  | succ k ih =>
    have hnext : elf.Mapped (i + 1) := hmapped (i + 1) (by omega) (by omega)
    have hle := hlaid.ascending (i + 1) (by omega) i (by omega)
      (hmapped i (Nat.le_refl i) (by omega)) hnext
    have hgrow := stop_growRegion (hreg.trans_le hle) (hlaid.below (i + 1) (by omega) hnext)
    have hrest := ih (i := i + 1) (by omega) (fun j h1 h2 => hmapped j (by omega) (by omega)) hgrow
    rwa [show i + 1 + k = i + (k + 1) by omega] at hrest

/-- The region of a group goes from its first section to the end of the last one. -/
theorem stop_regionOf (hlaid : elf.WellLaid) (hgroup : elf.Group b k) :
    (elf.regionOf b k).stop = elf.sectionEnd (b + k) := by
  have hend := (hlaid.group_lt hgroup).1
  exact hlaid.stop_growRun (by omega) (fun j => hlaid.mapped_of_group hgroup) rfl

theorem stop_regionOf_le (hlaid : elf.WellLaid) (hgroup : elf.Group b k) :
    (elf.regionOf b k).stop ≤ slotEndVAddr.toNat + 1 := by
  have hend := (hlaid.group_lt hgroup).1
  rw [hlaid.stop_regionOf hgroup]
  exact hlaid.below (b + k) (by omega)
    (hlaid.mapped_of_group hgroup (Nat.le_add_right b k) (Nat.le_refl _))

/-- The sections with addresses are in the order of these, also when one of them is meant twice. -/
theorem sectionEnd_mono (hlaid : elf.WellLaid) (hij : i ≤ j) (hj : j < elf.shnum)
    (hi : elf.Mapped i) (hmapped : elf.Mapped j) : elf.sectionEnd i ≤ elf.sectionEnd j := by
  rcases Nat.lt_or_eq_of_le hij with hlt | rfl
  · exact (hlaid.ascending j hj i hlt hi hmapped).trans (Nat.le_add_right _ _)
  · exact Nat.le_refl _

/-- The addresses of a section are in the region of its group. -/
theorem addrIsInRegion_of_group (hlaid : elf.WellLaid) (hgroup : elf.Group b k) (hbi : b ≤ i)
    (hik : i ≤ b + k) {a : LinAddr} (hle : (elf.sht i).shAddr.toNat ≤ a.toNat)
    (hlt : a.toNat < elf.sectionEnd i) : (elf.regionOf b k).addrIsInRegion a = true := by
  have hend := (hlaid.group_lt hgroup).1
  have hmapped := fun j => hlaid.mapped_of_group (i := j) hgroup
  rw [Region.addrIsInRegion_iff (hlaid.stop_regionOf_le hgroup), hlaid.stop_regionOf hgroup,
    regionOf, growRun_start]
  constructor
  · rcases Nat.lt_or_eq_of_le hbi with hlt' | rfl
    · have hbefore := hlaid.ascending i (by omega) b hlt' hgroup.mapped (hmapped i hbi hik)
      exact ((Nat.le_add_right _ _).trans hbefore).trans hle
    · exact hle
  · exact hlt.trans_le (hlaid.sectionEnd_mono hik (by omega) (hmapped i hbi hik)
      (hmapped _ (by omega) (Nat.le_refl _)))

end Elf.WellLaid

/-! ## The loop -/

open Elf

variable {debug : Bool} {elf : Elf} {b i k : ℕ} {reg : Region} {st st' : LoadState}
  {r : LoadResult LoadState}

/-- The regions of the groups before the section `i` have been made. -/
structure LoadedTo (elf : Elf) (i : ℕ) (st : LoadState) : Prop where
  /-- There are no others. -/
  groups : ∀ reg ∈ st.regionList, ∃ b k, elf.Group b k ∧ b + k < i ∧ reg = elf.regionOf b k
  /-- They have the sections with addresses. -/
  covers : ∀ j < i, elf.Mapped j → ∃ b k, elf.Group b k ∧ b ≤ j ∧ j ≤ b + k ∧
    elf.regionOf b k ∈ st.regionList
  /-- They come one behind the other. -/
  sorted : st.regionList.Pairwise fun reg reg' => reg.stop ≤ reg'.start.toNat
  /-- After `.bss`, the next page is known. -/
  nextPage : ∀ j < i, elf.Mapped j → elf.name j = ".bss" →
    st.nextPagePtr = pageUp ((elf.sht j).shAddr + (elf.sht j).shSize)

theorem loadedTo_init : LoadedTo elf 0 LoadState.init where
  groups reg hreg := by cases hreg
  covers j hj := by omega
  sorted := List.Pairwise.nil
  nextPage j hj := by omega

/-- A section without addresses is passed over. -/
theorem LoadedTo.skip (h : LoadedTo elf i st) (hmapped : ¬ elf.Mapped i)
    (hlist : st'.regionList = st.regionList) (hnext : st'.nextPagePtr = st.nextPagePtr) :
    LoadedTo elf (i + 1) st' := by
  have hbefore : ∀ j < i + 1, elf.Mapped j → j < i := by
    intro j hj hj'
    rcases Nat.lt_or_eq_of_le (Nat.le_of_lt_succ hj) with hlt | rfl
    · exact hlt
    · exact absurd hj' hmapped
  refine ⟨fun reg hreg => ?_, fun j hj hj' => ?_, hlist ▸ h.sorted, fun j hj hj' hname => ?_⟩
  · rw [hlist] at hreg
    obtain ⟨b, k, hgroup, hlt, heq⟩ := h.groups reg hreg
    exact ⟨b, k, hgroup, by omega, heq⟩
  · rw [hlist]
    exact h.covers j (hbefore j hj hj') hj'
  · rw [hnext]
    exact h.nextPage j (hbefore j hj hj') hj' hname

/-- A specially named section is not `.bss`. -/
theorem name_ne_bss_of_special (h : elf.special i = true) : elf.name i ≠ ".bss" := by
  intro hname
  rw [special, hname] at h
  revert h
  decide

/-- The region of a group is added. -/
theorem LoadedTo.add (h : LoadedTo elf i st) (hlaid : elf.WellLaid) (hgroup : elf.Group i k)
    (hlist : st'.regionList = st.regionList ++ [elf.regionOf i k])
    (hnext : st'.nextPagePtr = (noteBss (elf.regionOf i k) st).nextPagePtr) :
    LoadedTo elf (i + k + 1) st' := by
  have hend := hlaid.group_lt hgroup
  have hmapped := fun j => hlaid.mapped_of_group (i := j) hgroup
  refine ⟨fun reg hreg => ?_, fun j hj hj' => ?_, ?_, fun j hj hj' hname => ?_⟩
  · rw [hlist] at hreg
    rcases List.mem_append.mp hreg with hold | hnew
    · obtain ⟨b, k', hgroup', hlt, heq⟩ := h.groups reg hold
      exact ⟨b, k', hgroup', by omega, heq⟩
    · exact ⟨i, k, hgroup, by omega, List.mem_singleton.mp hnew⟩
  · rw [hlist]
    by_cases hji : j < i
    · obtain ⟨b, k', hgroup', hbj, hjk, hmem⟩ := h.covers j hji hj'
      exact ⟨b, k', hgroup', hbj, hjk, List.mem_append_left _ hmem⟩
    · exact ⟨i, k, hgroup, by omega, by omega, List.mem_append_right _ (List.mem_singleton_self _)⟩
  · rw [hlist, List.pairwise_append]
    refine ⟨h.sorted, List.pairwise_singleton _ _, fun reg hreg reg' hreg' => ?_⟩
    obtain ⟨b, k', hgroup', hlt, rfl⟩ := h.groups reg hreg
    obtain rfl := List.mem_singleton.mp hreg'
    rw [hlaid.stop_regionOf hgroup', regionOf, growRun_start]
    exact hlaid.ascending i hgroup.lt (b + k') hlt
      (hlaid.mapped_of_group hgroup' (Nat.le_add_right b k') (Nat.le_refl _)) hgroup.mapped
  · obtain ⟨l, -, -, -, -, hunique⟩ := hlaid.bss
    have hjl := (hunique j (by omega)).1 hname
    rw [hnext, noteBss_nextPagePtr, regionOf, growRun_name]
    by_cases hji : j < i
    · have hother : elf.name i ≠ ".bss" := by
        intro hi
        have := (hunique i hgroup.lt).1 hi
        omega
      rw [if_neg (by simpa [newRegion] using hother)]
      exact h.nextPage j hji hj' hname
    · rcases Nat.lt_or_eq_of_le (Nat.le_of_not_lt hji) with hlt | rfl
      · exact absurd hname (name_ne_bss_of_special (hgroup.run.special j hlt (by omega)))
      · obtain rfl := hend.2 hname
        rw [if_pos (by simpa [newRegion] using hname)]
        rfl

/-- The loop comes to its end, and all groups have got their regions. -/
theorem LoopRun.loadedTo (h : LoopRun debug elf i st r) (hlaid : elf.WellLaid)
    (hle : i ≤ elf.shnum) (hbase : i < elf.shnum → elf.special i = false)
    (hloaded : LoadedTo elf i st) : ∃ st', r = .ok st' ∧ LoadedTo elf elf.shnum st' := by
  induction h with
  | done i st hi =>
    obtain rfl : i = elf.shnum := by omega
    exact ⟨st, rfl, hloaded⟩
  | stop i st e hi hstep =>
    cases hstep with
    | noNames st' hnames => exact absurd hnames hlaid.names
    | misaligned st' _ hregion haligned =>
      exact absurd (hlaid.aligned i hi ((hlaid.getsRegion_iff hi).mp hregion) (hbase hi)) haligned
  | next i st i' st' r hi hstep hrest ih =>
    cases hstep with
    | skip st' hregion hread =>
      have hmapped : ¬ elf.Mapped i := fun h => hregion ((hlaid.getsRegion_iff hi).mpr h)
      refine ih hi (fun hlt => Bool.eq_false_iff.mpr fun hspecial => ?_)
        (hloaded.skip hmapped hread.regionList hread.nextPagePtr)
      obtain ⟨-, j, -, hj, hmapped', -⟩ := hlaid.absorbed (i + 1) hlt hspecial
      obtain rfl : j = i := by omega
      exact hmapped hmapped'
    | add k st' _ hregion _ hrun hlist hnext hread =>
      have hgroup : elf.Group i k :=
        ⟨hi, (hlaid.getsRegion_iff hi).mp hregion, hbase hi, hrun⟩
      have hend := (hlaid.group_lt hgroup).1
      exact ih (by omega) (fun _ => hrun.stop (by omega)) (hloaded.add hlaid hgroup hlist hnext)

/-! ## The rest of the slot -/

/-- The `usr` region that begins at a page. -/
def usrRegion (nextPagePtr : Word) : Region where
  name := "usr"
  start := nextPagePtr
  length := slotEndVAddr + 1 - nextPagePtr
  writable := true
  data := 0

theorem addUsr_eq (hnext : st.nextPagePtr ≠ 0) :
    addUsr debug st =
      .ok { st with regionList := st.regionList ++ [usrRegion st.nextPagePtr] } := by
  have hassert : ¬ (debug && st.nextPagePtr == 0) = true := by
    rw [beq_eq_false_iff_ne.mpr hnext, Bool.and_false]
    exact Bool.false_ne_true
  rw [addUsr, if_neg hassert]
  rfl

theorem toNat_pageUp {addr : LinAddr} (h : addr.toNat ≤ slotEndVAddr.toNat + 1) :
    (pageUp addr).toNat = (addr.toNat + 4095) / 4096 * 4096 := by
  rw [Region.toNat_slotEndVAddr] at h
  have hpage : (4095 : LinAddr).toNat = 4095 := by decide
  rw [pageUp, LinAddr.toNat_pageDown, BitVec.toNat_add, hpage, Nat.mod_eq_of_lt (by omega)]

/-- The first page behind an address is not before the address. -/
theorem le_pageUp {addr : LinAddr} (h : addr.toNat ≤ slotEndVAddr.toNat + 1) :
    addr.toNat ≤ (pageUp addr).toNat := by
  rw [toNat_pageUp h]
  omega

/-- It is not behind the slot, which ends with a page. -/
theorem pageUp_le {addr : LinAddr} (h : addr.toNat ≤ slotEndVAddr.toNat + 1) :
    (pageUp addr).toNat ≤ slotEndVAddr.toNat + 1 := by
  rw [toNat_pageUp h]
  rw [Region.toNat_slotEndVAddr] at h ⊢
  omega

theorem stop_usrRegion {nextPagePtr : Word} (h : nextPagePtr.toNat ≤ slotEndVAddr.toNat + 1) :
    (usrRegion nextPagePtr).stop = slotEndVAddr.toNat + 1 := by
  have hend : (slotEndVAddr + 1).toNat = slotEndVAddr.toNat + 1 := by decide
  have hle : nextPagePtr ≤ slotEndVAddr + 1 := by rwa [BitVec.le_def, hend]
  rw [Region.stop, usrRegion, BitVec.toNat_sub_of_le hle, hend, Nat.add_sub_cancel' h]

/-- The regions of an image are in the slot, in the order of their addresses, and have its sections. -/
structure Loaded (elf : Elf) (regionList : List Region) : Prop where
  /-- They end with the slot at the latest. -/
  below : ∀ reg ∈ regionList, reg.stop ≤ slotEndVAddr.toNat + 1
  /-- They begin at page boundaries. -/
  start : ∀ reg ∈ regionList, reg.start.pageDown = reg.start
  /-- They come one behind the other. -/
  sorted : regionList.Pairwise fun reg reg' => reg.stop ≤ reg'.start.toNat
  /-- The region of a section with addresses is that of its group. -/
  covers : ∀ i < elf.shnum, elf.Mapped i → ∃ b k, elf.Group b k ∧ b ≤ i ∧ i ≤ b + k ∧
    elf.regionOf b k ∈ regionList

theorem Elf.WellLaid.start_regionOf (hlaid : elf.WellLaid) (hgroup : elf.Group b k) :
    (elf.regionOf b k).start.pageDown = (elf.regionOf b k).start := by
  have haligned := congrArg BitVec.toNat (hlaid.aligned b hgroup.lt hgroup.mapped hgroup.base)
  have hstart : (elf.regionOf b k).start = (elf.sht b).shAddr := growRun_start
  have hzero : (elf.sht b).shAddr.toNat % 4096 = 0 := haligned
  refine BitVec.eq_of_toNat_eq ?_
  rw [hstart, LinAddr.toNat_pageDown]
  omega

/-- With the rest of the slot behind `.bss`, all regions are there. -/
theorem LoadedTo.loaded (h : LoadedTo elf elf.shnum st) (hlaid : elf.WellLaid) :
    st.nextPagePtr ≠ 0 ∧ Loaded elf (st.regionList ++ [usrRegion st.nextPagePtr]) := by
  obtain ⟨l, hl, -, hmapped, hname, hunique⟩ := hlaid.bss
  have hbelow := hlaid.below l hl hmapped
  have hnext := h.nextPage l hl hmapped hname
  have hbss : ((elf.sht l).shAddr + (elf.sht l).shSize).toNat = elf.sectionEnd l := by
    rw [Region.toNat_slotEndVAddr, sectionEnd] at hbelow
    rw [BitVec.toNat_add, Nat.mod_eq_of_lt (by omega), sectionEnd]
  have hpage : elf.sectionEnd l ≤ st.nextPagePtr.toNat ∧
      st.nextPagePtr.toNat ≤ slotEndVAddr.toNat + 1 := by
    rw [← hbss] at hbelow ⊢
    rw [hnext]
    exact ⟨le_pageUp hbelow, pageUp_le hbelow⟩
  have hsize : 0 < (elf.sht l).shSize.toNat := by
    refine Nat.pos_of_ne_zero fun hzero => hmapped.1 ?_
    exact BitVec.eq_of_toNat_eq hzero
  refine ⟨fun hzero => ?_, fun reg hreg => ?_, fun reg hreg => ?_, ?_, fun i hi hi' => ?_⟩
  · have hnone : st.nextPagePtr.toNat = 0 := by rw [hzero]; rfl
    unfold sectionEnd at hpage
    omega
  · rcases List.mem_append.mp hreg with hold | hnew
    · obtain ⟨b, k, hgroup, -, rfl⟩ := h.groups reg hold
      exact hlaid.stop_regionOf_le hgroup
    · obtain rfl := List.mem_singleton.mp hnew
      exact (stop_usrRegion hpage.2).le
  · rcases List.mem_append.mp hreg with hold | hnew
    · obtain ⟨b, k, hgroup, -, rfl⟩ := h.groups reg hold
      exact hlaid.start_regionOf hgroup
    · obtain rfl := List.mem_singleton.mp hnew
      change LinAddr.pageDown st.nextPagePtr = st.nextPagePtr
      rw [hnext, pageUp, LinAddr.pageDown_pageDown]
  · rw [List.pairwise_append]
    refine ⟨h.sorted, List.pairwise_singleton _ _, fun reg hreg reg' hreg' => ?_⟩
    obtain ⟨b, k, hgroup, hlt, rfl⟩ := h.groups reg hreg
    obtain rfl := List.mem_singleton.mp hreg'
    have hlast := hlaid.mapped_of_group hgroup (Nat.le_add_right b k) (Nat.le_refl _)
    have hle := hlaid.sectionEnd_mono ((hunique (b + k) hlt).2 hlast.2) hl hlast hmapped
    rw [hlaid.stop_regionOf hgroup]
    exact hle.trans hpage.1
  · obtain ⟨b, k, hgroup, hbi, hik, hmem⟩ := h.covers i hi hi'
    exact ⟨b, k, hgroup, hbi, hik, List.mem_append_left _ hmem⟩

/-- The loader returns the regions of an image that is laid out as it expects. -/
theorem createSVFromElf_loaded (debug : Bool) (hlaid : elf.WellLaid) : ∃ st,
    (∀ fuel, elf.shnum < fuel →
      createSVFromElf debug elf fuel = some (.ok (elf.ehdr.eEntry, st))) ∧
    Loaded elf st.regionList := by
  obtain ⟨r, r', hrun, hfuel, -, heq⟩ := createSVFromElf_of_accepted debug hlaid.accepted
  have hbase : 0 < elf.shnum → elf.special 0 = false := by
    refine fun hpos => Bool.eq_false_iff.mpr fun hspecial => ?_
    obtain ⟨-, j, hj, -⟩ := hlaid.absorbed 0 hpos hspecial
    omega
  obtain ⟨st, rfl, hst⟩ := hrun.loadedTo hlaid (Nat.zero_le _) hbase loadedTo_init
  obtain ⟨hnext, hloaded⟩ := hst.loaded hlaid
  have hresult : r' = .ok (elf.ehdr.eEntry,
      { st with regionList := st.regionList ++ [usrRegion st.nextPagePtr] }) := by
    rw [heq]
    simp only [bind, Except.bind, addUsr_eq hnext]
  exact ⟨_, fun fuel hlt => hresult ▸ hfuel fuel hlt, hloaded⟩

namespace Loaded

variable {regionList : List Region} (h : Loaded elf regionList)

include h

/-- No address is in two of the regions. -/
theorem disjoint : regionList.Pairwise fun reg reg' => ∀ a,
    ¬ (reg.addrIsInRegion a = true ∧ reg'.addrIsInRegion a = true) :=
  h.sorted.imp_of_mem fun hreg hreg' hle =>
    Region.not_both_of_stop_le (h.below _ hreg) (h.below _ hreg') hle

/-- The regions are as page faults need them. -/
theorem laid : Laid regionList where
  start := h.start
  apart reg hreg reg' hreg' a hin hin' := by
    obtain ⟨m, hm, rfl⟩ := List.getElem_of_mem hreg
    obtain ⟨n, hn, rfl⟩ := List.getElem_of_mem hreg'
    have hnot := List.pairwise_iff_getElem.mp h.disjoint
    rcases Nat.lt_trichotomy m n with hlt | rfl | hlt
    · exact absurd ⟨hin, hin'⟩ (hnot m n hm hn hlt a)
    · rfl
    · exact absurd ⟨hin', hin⟩ (hnot n m hn hm hlt a)

end Loaded

/-! ## The sections in the regions -/

/-- A list of regions that describes the address space of an image. -/
structure Elf.DescribedBy (elf : Elf) (regionList : List Region) : Prop where
  /-- No address is in two of the regions. -/
  disjoint : regionList.Pairwise fun reg reg' => ∀ a,
    ¬ (reg.addrIsInRegion a = true ∧ reg'.addrIsInRegion a = true)
  /-- The region of the page of an address is that of the group which the section of the address is
  in.  Where the first section of the group has data, and the section of the address lies in the file
  as it does in memory, the data pointer gives the byte of the file. -/
  lookup : ∀ i < elf.shnum, elf.Mapped i → ∀ a : LinAddr,
    (elf.sht i).shAddr.toNat ≤ a.toNat → a.toNat < elf.sectionEnd i →
    ∃ b k, elf.Group b k ∧ b ≤ i ∧ i ≤ b + k ∧
      getRegionOfAddr regionList a.pageDown = .ok (elf.regionOf b k) ∧
      ((elf.sht b).shType ≠ shtNobits →
        (elf.sht i).shOffset - (elf.sht i).shAddr = (elf.sht b).shOffset - (elf.sht b).shAddr →
        (elf.regionOf b k).data + (elf.regionOf b k).getOffset a =
          elf.eh + (elf.sht i).shOffset + (a - (elf.sht i).shAddr))

/-- The data pointer of a group whose first section has data. -/
theorem regionOf_data (hdata : (elf.sht b).shType ≠ shtNobits) :
    (elf.regionOf b k).data = elf.eh + (elf.sht b).shOffset := by
  rw [regionOf, growRun_data, newRegion]
  exact if_neg hdata

/-- Of every image that is laid out as the loader expects, it returns regions that describe the address
space. -/
theorem createSVFromElf_describedBy (debug : Bool) (elf : Elf) (hlaid : elf.WellLaid) : ∃ st,
    (∀ fuel, elf.shnum < fuel →
      createSVFromElf debug elf fuel = some (.ok (elf.ehdr.eEntry, st))) ∧
    elf.DescribedBy st.regionList := by
  obtain ⟨st, hfuel, hloaded⟩ := createSVFromElf_loaded debug hlaid
  refine ⟨st, hfuel, hloaded.disjoint, fun i hi hmapped a hle hlt => ?_⟩
  obtain ⟨b, k, hgroup, hbi, hik, hmem⟩ := hloaded.covers i hi hmapped
  have hin := hlaid.addrIsInRegion_of_group hgroup hbi hik hle hlt
  refine ⟨b, k, hgroup, hbi, hik,
    hloaded.laid.getRegionOfAddr_pageDown (hloaded.laid.getRegionOfAddr_of_mem hmem hin),
    fun hdata hshift => ?_⟩
  have hstart : (elf.regionOf b k).start = (elf.sht b).shAddr := growRun_start
  have hbase : (elf.sht b).shOffset =
      (elf.sht i).shOffset - (elf.sht i).shAddr + (elf.sht b).shAddr := by
    rw [hshift, BitVec.sub_add_cancel]
  rw [Region.getOffset, if_pos hin, regionOf_data hdata, hstart, hbase]
  grind

/-! ## Data behind a section without data -/

/-- A section of a page at the start of the slot. -/
def baseShdr (shType : BitVec 32) : Shdr where
  shName := 3
  shType
  shFlags := shfWrite ||| shfAlloc
  shAddr := slotStartVAddr
  shOffset := 0x1000
  shSize := 0x1000

/-- A `link_set` section on the next page, both in the file and in memory. -/
def linkSetShdr : Shdr where
  shName := 4
  shType := shtProgbits
  shFlags := shfWrite ||| shfAlloc
  shAddr := slotStartVAddr + 0x1000
  shOffset := 0x2000
  shSize := 0x10

/-- An image with a section that absorbs another one. -/
def absorbing (name : String) (shType : BitVec 32) : Elf where
  eh := 0x100000
  ehdr := executable 6
  sht i := [nullShdr, shstrtabShdr, baseShdr shType, linkSetShdr, bssShdr].getD i nullShdr
  cString addr :=
    if addr = 0x100201 then ".shstrtab" else if addr = 0x100202 then ".bss"
    else if addr = 0x100203 then name else if addr = 0x100204 then "link_set_init" else ""

/-- The first section is one of those that have no data in the file. -/
def tbssFirst : Elf := absorbing ".tbss" shtNobits

/-- The first section has data. -/
def dataFirst : Elf := absorbing ".data" shtProgbits

/-- Both are laid out as the loader expects. -/
theorem wellLaid_first {elf : Elf} (h : elf = tbssFirst ∨ elf = dataFirst) : elf.WellLaid := by
  rcases h with rfl | rfl <;>
  exact
    { accepted := by decide
      names := by decide
      ascending := by decide
      below := by decide
      aligned := by decide
      absorbed := by decide
      symbols := by decide
      bss := by decide }

/-- The `link_set` section is in the group of the section before it. -/
theorem eq_two_of_group {name : String} {shType : BitVec 32}
    (hspecial : (absorbing name shType).special 3 = true)
    (hgroup : (absorbing name shType).Group b k) (hle : b ≤ 3) : b = 2 := by
  obtain rfl | rfl | rfl | rfl : b = 0 ∨ b = 1 ∨ b = 2 ∨ b = 3 := by omega
  · exact (hgroup.mapped.1 rfl).elim
  · exact (hgroup.mapped.2 (by decide : shstrtabShdr.shFlags &&& shfAlloc = 0)).elim
  · rfl
  · rw [hgroup.base] at hspecial
    cases hspecial

/-- Where a section without data has absorbed one with data, a region has no data, although the two
sections lie in the file as they do in memory. -/
theorem not_describedBy_tbssFirst :
    tbssFirst.WellLaid ∧
    (∀ debug, (createSVFromElf debug tbssFirst 7).map (fun r => (lastState Prod.snd r).regionList) =
      some [tbssFirst.regionOf 2 1, tbssFirst.regionOf 4 0, usrRegion (slotStartVAddr + 0x11000)]) ∧
    (tbssFirst.regionOf 2 1).data = 0 ∧
    ¬ ∀ (debug : Bool) (elf : Elf), elf.WellLaid → ∃ st,
      (∀ fuel, elf.shnum < fuel →
        createSVFromElf debug elf fuel = some (.ok (elf.ehdr.eEntry, st))) ∧
      ∀ i < elf.shnum, elf.Mapped i → (elf.sht i).shType = shtProgbits → ∀ a : LinAddr,
        (elf.sht i).shAddr.toNat ≤ a.toNat → a.toNat < elf.sectionEnd i →
        ∃ b k, elf.Group b k ∧ b ≤ i ∧ i ≤ b + k ∧
          getRegionOfAddr st.regionList a.pageDown = .ok (elf.regionOf b k) ∧
          ((elf.sht i).shOffset - (elf.sht i).shAddr = (elf.sht b).shOffset - (elf.sht b).shAddr →
            (elf.regionOf b k).data + (elf.regionOf b k).getOffset a =
              elf.eh + (elf.sht i).shOffset + (a - (elf.sht i).shAddr)) := by
  have hregions : ∀ debug, (createSVFromElf debug tbssFirst 7).map
      (fun r => (lastState Prod.snd r).regionList) =
      some [tbssFirst.regionOf 2 1, tbssFirst.regionOf 4 0,
        usrRegion (slotStartVAddr + 0x11000)] := by
    decide
  refine ⟨wellLaid_first (Or.inl rfl), hregions, by decide, fun hall => ?_⟩
  obtain ⟨st, hfuel, hlookup⟩ := hall true tbssFirst (wellLaid_first (Or.inl rfl))
  have hlist := hregions true
  rw [hfuel 7 (by decide), Option.map_some, Option.some.injEq] at hlist
  obtain ⟨b, k, hgroup, hb, -, hregion, hdata⟩ := hlookup 3 (by decide) (by decide) rfl
    (slotStartVAddr + 0x1008) (by decide) (by decide)
  obtain rfl := eq_two_of_group (by decide) hgroup hb
  have hfound : getRegionOfAddr (lastState Prod.snd
      (Except.ok (tbssFirst.ehdr.eEntry, st) : LoadResult _)).regionList
      (slotStartVAddr + 0x1008).pageDown = .ok (tbssFirst.regionOf 2 1) := by
    rw [hlist]
    decide
  rw [Except.ok.inj (hregion.symm.trans hfound)] at hdata
  exact absurd (hdata (by decide)) (by decide)

/-- A byte of the `link_set` section, behind a section with data. -/
theorem createSVFromElf_describedBy_dataFirst :
    ∃ st, createSVFromElf true dataFirst 7 = some (.ok (dataFirst.ehdr.eEntry, st)) ∧
      ∃ reg, getRegionOfAddr st.regionList (slotStartVAddr + 0x1000) = .ok reg ∧
        reg.data + reg.getOffset (slotStartVAddr + 0x1008) = 0x102008 := by
  obtain ⟨st, hfuel, -, hlookup⟩ := createSVFromElf_describedBy true dataFirst (wellLaid_first (Or.inr rfl))
  obtain ⟨b, k, hgroup, hb, -, hregion, hdata⟩ := hlookup 3 (by decide) (by decide)
    (slotStartVAddr + 0x1008) (by decide) (by decide)
  obtain rfl := eq_two_of_group (by decide) hgroup hb
  exact ⟨st, hfuel 7 (by decide), _, hregion, hdata (by decide) (by decide)⟩

end ElfLoader

end Umm
