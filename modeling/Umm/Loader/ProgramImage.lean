import Umm.Loader.Regions
import Umm.Memory.WriteLog

/-!
# The program image

The regions that the loader makes are what page faults fill memory from.  `Loadable` says what an image
needs besides its layout so that this gives the program: `.bss` is the only section without data, what is
absorbed lies in the file as it does in memory, and what is not writable is `.text` or `.rodata`, and
begins at a page boundary in memory as the file was loaded.

Of such an image, a page that an instance has not written holds the bytes of the file, unless the table
of the instance is a copy of one on which the page had been written: a clone of a checkpoint begins with
what the checkpointed instance had written.
-/

namespace Umm

open Foundations

/-! ## Bytes -/

/-- The byte of a page at an address. -/
def pageByte (page : Page) (vaddr : LinAddr) : BitVec 8 :=
  (page vaddr.word).extractLsb' (8 * (vaddr.toNat % 8)) 8

/-- A byte of a word to which another one is added. -/
theorem extractLsb'_or_byte (w : Word) (b : BitVec 8) {n j : ℕ} (hj : j < 8) :
    (w ||| b.setWidth 64 <<< (8 * n)).extractLsb' (8 * j) 8 =
      if n = j then w.extractLsb' (8 * j) 8 ||| b else w.extractLsb' (8 * j) 8 := by
  refine BitVec.eq_of_getLsbD_eq fun i hi => ?_
  have hbit : (b.setWidth 64 <<< (8 * n) : Word).getLsbD (8 * j + i) =
      (decide (n = j) && b.getLsbD i) := by
    rw [BitVec.getLsbD_shiftLeft, BitVec.getLsbD_setWidth]
    rcases Nat.lt_trichotomy n j with h | rfl | h
    · have hout : b.getLsbD (8 * j + i - 8 * n) = false := BitVec.getLsbD_of_ge _ _ (by omega)
      simp [hout, Nat.ne_of_lt h]
    · simp [show 8 * n + i < 64 by omega, show i < 64 by omega]
    · simp [show 8 * j + i < 8 * n by omega, Nat.ne_of_gt h]
  by_cases h : n = j
  · rw [if_pos h, BitVec.getLsbD_or, BitVec.getLsbD_extractLsb', BitVec.getLsbD_extractLsb',
      BitVec.getLsbD_or, hbit, decide_eq_true h, decide_eq_true hi]
    rfl
  · rw [if_neg h, BitVec.getLsbD_extractLsb', BitVec.getLsbD_extractLsb', BitVec.getLsbD_or, hbit,
      decide_eq_false h, Bool.false_and, Bool.or_false]

/-- The bytes of a word that is put together from them. -/
theorem extractLsb'_foldl_bytes (byte : ℕ → BitVec 8) (n : ℕ) {j : ℕ} (hj : j < 8) :
    ((List.range n).foldl (fun (w : Word) k => w ||| (byte k).setWidth 64 <<< (8 * k)) 0).extractLsb'
      (8 * j) 8 = if j < n then byte j else 0 := by
  induction n with
  | zero => simp
  | succ n ih =>
    rw [List.range_succ, List.foldl_append, List.foldl_cons, List.foldl_nil,
      extractLsb'_or_byte _ _ hj, ih]
    rcases Nat.lt_trichotomy n j with h | rfl | h
    · rw [if_neg (Nat.ne_of_lt h), if_neg (by omega), if_neg (by omega)]
    · simp
    · rw [if_neg (Nat.ne_of_gt h), if_pos h, if_pos (by omega)]

/-- A byte of a word that is read. -/
theorem extractLsb'_wordAt (mem : Pfn → Page) (addr : Word) {j : ℕ} (hj : j < 8) :
    (wordAt mem addr).extractLsb' (8 * j) 8 = byteAt mem (addr + BitVec.ofNat 64 j) := by
  have hbyte := extractLsb'_foldl_bytes (fun k => byteAt mem (addr + BitVec.ofNat 64 k)) 8 hj
  rwa [if_pos hj] at hbyte

theorem toNat_word (vaddr : LinAddr) : vaddr.word.toNat = vaddr.toNat / 8 % 512 := by
  rw [LinAddr.word, BitVec.extractLsb'_toNat, Nat.shiftRight_eq_div_pow]

/-- The offset of an address in its page. -/
theorem toNat_sub_pageDown (vaddr : LinAddr) :
    (vaddr - vaddr.pageDown).toNat = vaddr.toNat % 4096 := by
  have hpage := vaddr.toNat_pageDown
  rw [BitVec.toNat_sub_of_le (by rw [BitVec.le_def]; omega), hpage]
  omega

/-- The bytes of a copied page. -/
theorem pageByte_memcpyPage (mem : Pfn → Page) (src : Word) (vaddr : LinAddr) :
    pageByte (memcpyPage mem src) vaddr = byteAt mem (src + (vaddr - vaddr.pageDown)) := by
  rw [pageByte, memcpyPage, extractLsb'_wordAt mem _ (Nat.mod_lt _ (by decide)), BitVec.add_assoc]
  have hoffset : BitVec.ofNat 64 (8 * vaddr.word.toNat) + BitVec.ofNat 64 (vaddr.toNat % 8) =
      vaddr - vaddr.pageDown := by
    refine BitVec.eq_of_toNat_eq ?_
    rw [toNat_sub_pageDown, toNat_word, ← BitVec.ofNat_add, BitVec.toNat_ofNat]
    omega
  rw [hoffset]

/-- The bytes of a page that is mapped as it is in memory. -/
theorem pageByte_of_aligned (mem : Pfn → Page) {src : Word} (hsrc : src.toNat % 4096 = 0)
    (vaddr : LinAddr) :
    pageByte (mem (pfnDown src)) vaddr = byteAt mem (src + (vaddr - vaddr.pageDown)) := by
  have hoffset := toNat_sub_pageDown vaddr
  generalize vaddr - vaddr.pageDown = off at hoffset ⊢
  have hsum : (src + off).toNat = src.toNat + vaddr.toNat % 4096 := by
    have hlt := src.isLt
    rw [BitVec.toNat_add, hoffset, Nat.mod_eq_of_lt (by omega)]
  have hpfn : pfnDown (src + off) = pfnDown src := by
    refine BitVec.eq_of_toNat_eq ?_
    rw [pfnDown, pfnDown, BitVec.extractLsb'_toNat, BitVec.extractLsb'_toNat, hsum,
      Nat.shiftRight_eq_div_pow, Nat.shiftRight_eq_div_pow]
    omega
  have hword : LinAddr.word (src + off) = vaddr.word := by
    refine BitVec.eq_of_toNat_eq ?_
    rw [toNat_word, toNat_word, hsum]
    omega
  rw [byteAt, pageByte, hpfn, hword, hsum,
    show (src.toNat + vaddr.toNat % 4096) % 8 = vaddr.toNat % 8 by omega]

namespace ElfLoader

namespace Elf

/-! ## The program -/

variable (elf : Elf)

/-- The byte that the program has at an address of a section: that of the file, or zero. -/
def programByte (mem : Pfn → Page) (i : ℕ) (a : LinAddr) : BitVec 8 :=
  if (elf.sht i).shType = shtNobits then 0
  else byteAt mem (elf.eh + (elf.sht i).shOffset + (a - (elf.sht i).shAddr))

/-- The section can be written. -/
def Writable (i : ℕ) : Prop := (elf.sht i).shFlags &&& shfWrite ≠ 0

instance (i : ℕ) : Decidable (elf.Writable i) := inferInstanceAs (Decidable (_ ≠ _))

/-- An image that the loader and the page faults together make the program of. -/
structure Loadable : Prop extends WellLaid elf where
  /-- A section without data that begins a region is `.bss`, and can be written. -/
  noData : ∀ i < elf.shnum, elf.Mapped i → elf.special i = false →
    (elf.sht i).shType = shtNobits → elf.name i = ".bss" ∧ elf.Writable i
  /-- The data of the others is somewhere. -/
  data : ∀ i < elf.shnum, elf.Mapped i → elf.special i = false →
    (elf.sht i).shType ≠ shtNobits → elf.eh + (elf.sht i).shOffset ≠ 0
  /-- Those that cannot be written are `.text` and `.rodata`, and their data begins with a page. -/
  readOnly : ∀ i < elf.shnum, elf.Mapped i → elf.special i = false → ¬ elf.Writable i →
    (elf.name i = ".text" ∨ elf.name i = ".rodata") ∧
      (elf.eh + (elf.sht i).shOffset).toNat % 4096 = 0
  /-- An absorbed section has data, behind that of the section before it, and lies in the file as it
  does in memory. -/
  shifted : ∀ i < elf.shnum, i + 1 < elf.shnum → elf.special (i + 1) = true →
    (elf.sht (i + 1)).shType ≠ shtNobits ∧ (elf.sht i).shType ≠ shtNobits ∧
      (elf.sht (i + 1)).shOffset - (elf.sht (i + 1)).shAddr =
        (elf.sht i).shOffset - (elf.sht i).shAddr

variable {elf} {b i k : ℕ} {reg : Region} {regionList : List Region}

@[simp] theorem growRun_writable : (elf.growRun k i reg).writable = reg.writable := by
  induction k generalizing i reg with
  | zero => rfl
  | succ k ih => exact ih

/-- The sections of a group lie in the file as they do in memory. -/
theorem Loadable.shifted_of_group (h : elf.Loadable) (hgroup : elf.Group b k) (hbi : b ≤ i)
    (hik : i ≤ b + k) : (b < i → (elf.sht b).shType ≠ shtNobits ∧ (elf.sht i).shType ≠ shtNobits) ∧
      (elf.sht i).shOffset - (elf.sht i).shAddr = (elf.sht b).shOffset - (elf.sht b).shAddr := by
  have hend := (h.toWellLaid.group_lt hgroup).1
  induction i, hbi using Nat.le_induction with
  | base => exact ⟨fun hlt => absurd hlt (Nat.lt_irrefl b), rfl⟩
  | succ i hbi ih =>
    obtain ⟨hfirst, hshift⟩ := ih (by omega)
    obtain ⟨hdata, hbefore, hnext⟩ :=
      h.shifted i (by omega) (by omega) (hgroup.run.special (i + 1) (by omega) hik)
    refine ⟨fun _ => ⟨?_, hdata⟩, hnext.trans hshift⟩
    rcases Nat.lt_or_eq_of_le hbi with hlt | rfl
    · exact (hfirst hlt).1
    · exact hbefore

/-- The offset of an address in a region, in two parts. -/
theorem offset_add {start a : LinAddr} (data : Word) :
    data + (a.pageDown - start) + (a - a.pageDown) = data + (a - start) := by
  grind

theorem find_of_getRegionOfAddr {vaddr : LinAddr} (h : getRegionOfAddr regionList vaddr = .ok reg) :
    regionList.find? (·.addrIsInRegion vaddr) = some reg := by
  unfold getRegionOfAddr at h
  cases hfind : regionList.find? (·.addrIsInRegion vaddr) with
  | none => simp [hfind] at h
  | some reg' => simpa [hfind] using h

/-- What a page of a region holds first, byte by byte, where the region has data. -/
theorem initialPage_of_data (mem : Pfn → Page) {a : LinAddr}
    (hfind : regionList.find? (·.addrIsInRegion a.pageDown) = some reg)
    (hin : reg.addrIsInRegion a.pageDown = true) (hdata : reg.data ≠ 0)
    (hreadOnly : reg.writable = false → (reg.name = ".text" ∨ reg.name = ".rodata") ∧
      (reg.data + (a.pageDown - reg.start)).toNat % 4096 = 0) :
    ∃ page, initialPage regionList mem a.pageDown = some page ∧
      pageByte page a = byteAt mem (reg.data + (a - reg.start)) := by
  have hoffset : reg.getOffset a.pageDown = a.pageDown - reg.start := if_pos hin
  have hhasData : reg.hasData = true := bne_iff_ne.mpr hdata
  cases hwritable : reg.writable with
  | true =>
    refine ⟨memcpyPage mem (reg.data + (a.pageDown - reg.start)), ?_, ?_⟩
    · simp only [initialPage, hfind, hwritable, hhasData, if_true, hoffset]
    · rw [pageByte_memcpyPage, offset_add]
  | false =>
    obtain ⟨hname, haligned⟩ := hreadOnly hwritable
    refine ⟨mem (pfnDown (reg.data + (a.pageDown - reg.start))), ?_, ?_⟩
    · have hbeq : (reg.name == ".text" || reg.name == ".rodata") = true := by simpa using hname
      simp only [initialPage, hfind, hwritable, hbeq, if_true, hoffset, Bool.false_eq_true, if_false]
    · rw [pageByte_of_aligned mem haligned, offset_add]

theorem toNat_add_sub_aligned {x y z : Word} (hx : x.toNat % 4096 = 0) (hy : y.toNat % 4096 = 0)
    (hz : z.toNat % 4096 = 0) : (x + (y - z)).toNat % 4096 = 0 := by
  rw [BitVec.toNat_add, BitVec.toNat_sub]
  omega

/-- A page of a section initially holds the bytes of the program. -/
theorem Loadable.initialPage_program (h : elf.Loadable) (hloaded : Loaded elf regionList)
    (mem : Pfn → Page) (hi : i < elf.shnum) (hmapped : elf.Mapped i) {a : LinAddr}
    (hle : (elf.sht i).shAddr.toNat ≤ a.toNat) (hlt : a.toNat < elf.sectionEnd i) :
    ∃ page, initialPage regionList mem a.pageDown = some page ∧
      pageByte page a = elf.programByte mem i a := by
  obtain ⟨b, k, hgroup, hbi, hik, hmem⟩ := hloaded.covers i hi hmapped
  have hin := h.toWellLaid.addrIsInRegion_of_group hgroup hbi hik hle hlt
  have hpage := hloaded.laid.addrIsInRegion_pageDown hmem hin
  have hfind := find_of_getRegionOfAddr
    (hloaded.laid.getRegionOfAddr_pageDown (hloaded.laid.getRegionOfAddr_of_mem hmem hin))
  obtain ⟨hkinds, hshift⟩ := h.shifted_of_group hgroup hbi hik
  have hstart : (elf.regionOf b k).start = (elf.sht b).shAddr := growRun_start
  have hname : (elf.regionOf b k).name = elf.name b := growRun_name
  have hwritable : (elf.regionOf b k).writable = true ↔ elf.Writable b := by
    rw [regionOf, growRun_writable]
    exact bne_iff_ne
  by_cases hdata : (elf.sht b).shType = shtNobits
  · -- `.bss`, which is a group of its own
    obtain ⟨hbss, hwrite⟩ := h.noData b hgroup.lt hgroup.mapped hgroup.base hdata
    obtain rfl := (h.toWellLaid.group_lt hgroup).2 hbss
    obtain rfl : i = b := by omega
    have hnone : (elf.regionOf i 0).hasData = false := by
      simp [regionOf, growRun, newRegion, Region.hasData, hdata]
    refine ⟨fun _ => 0, ?_, ?_⟩
    · simp [initialPage, hfind, hwritable.mpr hwrite, hnone, hname, hbss]
    · simp [pageByte, programByte, hdata]
  · have hregion := regionOf_data (k := k) hdata
    have hreadOnly : (elf.regionOf b k).writable = false →
        ((elf.regionOf b k).name = ".text" ∨ (elf.regionOf b k).name = ".rodata") ∧
          ((elf.regionOf b k).data + (a.pageDown - (elf.regionOf b k).start)).toNat % 4096 = 0 := by
      intro hro
      have hnot : ¬ elf.Writable b := fun hwrite => by
        rw [hwritable.mpr hwrite] at hro
        cases hro
      obtain ⟨hnames, hfile⟩ := h.readOnly b hgroup.lt hgroup.mapped hgroup.base hnot
      have haddr := congrArg BitVec.toNat (h.toWellLaid.start_regionOf hgroup)
      rw [hname, hregion]
      refine ⟨hnames, toNat_add_sub_aligned hfile ?_ ?_⟩
      · rw [LinAddr.toNat_pageDown]
        omega
      · rw [LinAddr.toNat_pageDown] at haddr
        omega
    obtain ⟨page, hpage', hbyte⟩ := initialPage_of_data mem hfind hpage
      (hregion ▸ h.data b hgroup.lt hgroup.mapped hgroup.base hdata) hreadOnly
    have hkind : (elf.sht i).shType ≠ shtNobits := by
      rcases Nat.lt_or_eq_of_le hbi with hlt' | rfl
      · exact (hkinds hlt').2
      · exact hdata
    refine ⟨page, hpage', ?_⟩
    rw [hbyte, programByte, if_neg hkind, hregion, hstart]
    congr 1
    grind

end Elf

end ElfLoader

/-! ## Runs -/

namespace Sys

open ElfLoader

variable {A : Allocator Pfn} {frames : Set Pfn} {s s' : Sys A frames} {c : UmiCore} {id : SvId}
  {sv : Sv frames}

/-- The frames of the images are never written. -/
theorem Stepped.image_mem_eq (hwf : s.Wf) {a : MemStep frames} (hstep : s.Stepped a s') {f : Pfn}
    (hf : f ∈ frames) : s'.h.mem f = s.h.mem f := by
  rcases hstep.effect_or_destroyed hwf with ⟨j, root', heffect⟩ | ⟨j, hdestroyed⟩
  · exact hwf.apart.pinned_mem_eq heffect.evolves hf
  · rw [hdestroyed.freed.mem]

/-- A page that is not mapped, or mapped without the dirty bit, has the initial content. -/
theorem Clean.pageContent_eq (hclean : s.Clean) (hsv : s.svs id = some sv) {va : LinAddr}
    (hvalid : validAddress va = true)
    (hunwritten : ∀ e, slotLeaf s.h (s.table id) va.path = some e → e.dirty = false) :
    s.pageContent id sv.image va = initialPage sv.image.regions s.h.mem va.pageDown := by
  cases hleaf : slotLeaf s.h (s.table id) va.path with
  | none => exact pageContent_of_no_leaf hleaf
  | some e =>
    rw [pageContent_of_leaf hleaf, hclean id sv va e hvalid hsv hleaf (hunwritten e hleaf)]

/-- A guest reads the word that its page holds before the access, if the page is of a supported region
and memory does not run out. -/
theorem read_pageContent (hwf : s.Wf) (hshared : s.Shared) (hid : s.activeUmi c = some id)
    (hsv : s.svs id = some sv) {va : LinAddr} (hvalid : validAddress va = true)
    (hsupported : Supported sv.image.regions s.h.mem va.pageDown false) {page : Page}
    (hpage : s.pageContent id sv.image va = some page) :
    Outcome (s.exec (.read c va)) (fun s' => s'.reads = (id, va, page va.word) :: s.reads)
      (fun err => err = .kbugon) := by
  obtain ⟨sv', hsv', hl⟩ := (hwf.activeUmi_iff c id).mp hid
  obtain rfl := Option.some.inj (hsv.symm.trans hsv')
  simp only [exec, Sys.read, active_eq hid hsv]
  refine outcome_bind.mpr (outcome_ok.mpr (outcome_bind.mpr
    ((access_accessed hwf hid hsv hl false).mono ?_ fun err herr => herr hsupported)))
  rintro ⟨e, s₁⟩ haccessed
  have hsv₁ : s₁.svs id = some sv := haccessed.svs ▸ hsv
  have hcontent := haccessed.pageContent_eq hwf hshared hid hsv hl hvalid hvalid
  rw [hpage, pageContent_of_leaf ((table_of_loaded hsv₁ hl).symm ▸ haccessed.leaf)] at hcontent
  rw [outcome_ok, Option.some.inj hcontent, haccessed.reads]

end Sys

namespace WrittenSys

open ElfLoader Sys

variable {A : Allocator Pfn} {frames : Set Pfn} {t : WrittenSys A frames} {c : UmiCore} {id : SvId}
  {sv : Sv frames}

/-- The guests run the program of the image: in a run in which state vectors are destroyed last, a guest
with the regions that the loader has made reads the bytes of the program, as long as there is memory, on
a page that has been written neither by it nor, before, by what it is a copy of. -/
theorem reads_program {elf : Elf} (hloadable : elf.Loadable) (debug : Bool) {st : LoadState}
    (hload : ElfLoader.createSVFromElf debug elf (elf.shnum + 1) = some (.ok (elf.ehdr.eEntry, st)))
    (boot : BootMem A frames) (steps : List (MemStep frames))
    (hlast : AllSteps step (fun t a => t.sys.DestroysLast a) (init boot) steps)
    (hrun : Foundations.run step (init boot) steps = some t) (hid : t.sys.activeUmi c = some id)
    (hsv : t.sys.svs id = some sv) (hregions : sv.image.regions = st.regionList) {i : ℕ}
    (hi : i < elf.shnum) (hmapped : elf.Mapped i) {a : LinAddr} (hvalid : validAddress a = true)
    (hle : (elf.sht i).shAddr.toNat ≤ a.toNat) (hlt : a.toNat < elf.sectionEnd i)
    (hunwritten : a.pageDown ∉ t.written id) :
    Outcome (t.sys.exec (.read c a))
      (fun s' => ∃ word : Word, s'.reads = (id, a, word) :: t.sys.reads ∧
        word.extractLsb' (8 * (a.toNat % 8)) 8 = elf.programByte boot.h.mem i a)
      (fun err => err = .kbugon) := by
  let I : WrittenSys A frames → Prop := fun t => t.sys.Wf ∧ t.sys.Shared ∧ t.sys.Clean ∧
    t.sys.Logged t.written ∧ ∀ f ∈ frames, t.sys.h.mem f = boot.h.mem f
  obtain ⟨hwf, hshared, hclean, hlogged, hmem⟩ : I t := by
    refine run_invariant (I := I) (C := fun t a => t.sys.DestroysLast a) ?_ ?_ hlast hrun
    · rintro t a t' hlast ⟨hwf, hshared, hclean, hlogged, hmem⟩ hstep
      have hstepped := Sys.step_stepped hwf (step_eq_some.mp hstep).1
      exact ⟨hstepped.wf hwf, hstepped.shared hwf hshared hlast, hstepped.clean hwf hshared hclean,
        logged_step hwf hlogged hstep,
        fun f hf => (hstepped.image_mem_eq hwf hf).trans (hmem f hf)⟩
    · exact ⟨Sys.wf_init boot, Sys.shared_init boot, fun _ _ _ _ _ hsv => (by cases hsv),
        logged_init boot, fun _ _ => rfl⟩
  obtain ⟨st', hload', hloaded⟩ := createSVFromElf_loaded debug hloadable.toWellLaid
  obtain rfl : st' = st := by
    have heq := (hload' (elf.shnum + 1) (Nat.lt_succ_self _)).symm.trans hload
    exact congrArg Prod.snd (Except.ok.inj (Option.some.inj heq))
  obtain ⟨page, hpage, hbyte⟩ :=
    hloadable.initialPage_program hloaded boot.h.mem hi hmapped hle hlt
  have hinitial : initialPage sv.image.regions t.sys.h.mem a.pageDown = some page := by
    rw [initialPage_congr a.pageDown_pageDown hmem, hregions, hpage]
  have hsupported : Supported sv.image.regions t.sys.h.mem a.pageDown false :=
    ⟨hinitial ▸ Option.some_ne_none page, fun h => by cases h⟩
  have hclean : ∀ e, slotLeaf t.sys.h (t.sys.table id) a.path = some e → e.dirty = false :=
    fun e hleaf => Bool.eq_false_iff.mpr fun hdirty => hunwritten (hlogged id a e hvalid hleaf hdirty)
  have hcontent := (Sys.Clean.pageContent_eq ‹_› hsv hvalid hclean).trans hinitial
  refine (Sys.read_pageContent hwf hshared hid hsv hvalid hsupported hcontent).mono ?_ fun _ h => h
  exact fun s' hreads => ⟨page a.word, hreads, hbyte⟩

/-! ## A program in memory -/

/-- The regions of `dataFirst`, which lie behind the first frames. -/
def dataImage : Image {f | 16 < f.toNat} where
  regions := [dataFirst.regionOf 2 1, dataFirst.regionOf 4 0, usrRegion (slotStartVAddr + 0x11000)]
  backed := by
    intro reg hreg hdata vaddr _ hin i hi
    obtain rfl : reg = dataFirst.regionOf 2 1 := by
      rcases List.mem_cons.mp hreg with rfl | hreg
      · rfl
      · rcases List.mem_pair.mp hreg with rfl | rfl <;> revert hdata <;> decide
    have hoffset : (vaddr - slotStartVAddr).toNat < 0x1010 := by
      obtain ⟨hle, hlt⟩ := Bool.and_eq_true_iff.mp hin
      have hle : slotStartVAddr.toNat ≤ vaddr.toNat := of_decide_eq_true hle
      have hlt : vaddr.toNat < (slotStartVAddr + 0x1010).toNat := of_decide_eq_true hlt
      rw [BitVec.toNat_sub_of_le hle]
      rw [show (slotStartVAddr + 0x1010).toNat = slotStartVAddr.toNat + 0x1010 by decide] at hlt
      omega
    have haddr : ((0x101000 : Word) + (vaddr - slotStartVAddr) + BitVec.ofNat 64 i).toNat =
        0x101000 + (vaddr - slotStartVAddr).toNat + i := by
      generalize vaddr - slotStartVAddr = off at hoffset
      rw [BitVec.toNat_add, BitVec.toNat_add, BitVec.toNat_ofNat,
        show (0x101000 : Word).toNat = 0x101000 by decide]
      omega
    have hdata : (dataFirst.regionOf 2 1).data = 0x101000 := by decide
    have hstart : (dataFirst.regionOf 2 1).start = slotStartVAddr := by decide
    rw [Region.getOffset, if_pos hin, hdata, hstart, Set.mem_ofPred_eq, pfnDown,
      BitVec.extractLsb'_toNat, haddr, Nat.shiftRight_eq_div_pow]
    omega

/-- A memory with twelve free frames, in which every word has the number of its frame. -/
def numberedBoot : BootMem (Allocator.freeList Pfn) {f | 16 < f.toNat} where
  h := { mem := fun f _ => f.setWidth 64, pal := twelveFrames, freeCalls := [] }
  used := by
    intro f hf hfree
    have hle : ∀ g ∈ twelveFrames, g.toNat ≤ 16 := by simp [twelveFrames]
    exact absurd (hle f hfree) (Nat.not_le.mpr hf)

/-- An instance of the image writes to its first page. -/
def writeFirst : List (MemStep {f | 16 < f.toNat}) :=
  [.createSV dataImage, .newInstance 0, .load 0 1, .write 0 slotStartVAddr 5 (-1)]

/-- A checkpoint is taken of it, and a clone of the checkpoint is loaded on another core. -/
def cloneOfWriter : List (MemStep {f | 16 < f.toNat}) :=
  writeFirst ++ [.checkpoint 0, .newInstance 2, .load 1 3]

/-- The clone reads a byte of the `link_set` section of `dataFirst`, which is on the page after the one
that was written. -/
theorem reads_program_clone : ∃ t s',
    Foundations.run step (init numberedBoot) cloneOfWriter = some t ∧ t.written 3 = [slotStartVAddr] ∧
      t.sys.exec (.read 1 (slotStartVAddr + 0x1008)) = .ok s' ∧
      ∃ word : Word, s'.reads = (3, slotStartVAddr + 0x1008, word) :: t.sys.reads ∧
        word.extractLsb' 0 8 = 0x02 := by
  have hlist : (ElfLoader.createSVFromElf true dataFirst 7).map
      (fun r => (lastState Prod.snd r).regionList) = some dataImage.regions := by
    decide
  have hloadable : dataFirst.Loadable :=
    { toWellLaid := wellLaid_first (Or.inr rfl)
      noData := by decide
      data := by decide
      readOnly := by decide
      shifted := by decide }
  obtain ⟨st, hload, -⟩ := createSVFromElf_loaded true hloadable.toWellLaid
  have hload := hload 7 (by decide)
  rw [hload, Option.map_some, Option.some.injEq] at hlist
  have hsteps : ((Foundations.run step (init numberedBoot) writeFirst).bind fun t =>
      (Foundations.run step (t.tabulated [2, 3, 4]) [.checkpoint 0]).bind fun t =>
      (Foundations.run step (t.tabulated [2, 3, 4, 6, 7, 8]) [.newInstance 2, .load 1 3]).bind fun t =>
      (t.sys.svs 3).bind fun sv =>
        ((t.tabulated [9, 10, 11]).sys.exec (.read 1 (slotStartVAddr + 0x1008))).toOption.map fun _ =>
          (t.sys.activeUmi 1, sv.image.regions, t.written 3)) =
      some (some 3, dataImage.regions, [slotStartVAddr]) := by
    decide +kernel
  simp only [tabulated_eq, Option.bind_eq_some_iff, Option.map_eq_some_iff, toOption_eq_some,
    Prod.mk.injEq] at hsteps
  obtain ⟨t₁, h₁, t₂, h₂, t, h₃, sv, hsv, s', hexec, hid, hregions, hwritten⟩ := hsteps
  have hrun : Foundations.run step (init numberedBoot) cloneOfWriter = some t := by
    change Foundations.run step (init numberedBoot)
      (writeFirst ++ ([.checkpoint 0] ++ [.newInstance 2, .load 1 3])) = some t
    rw [run_append, h₁, Option.bind_some, run_append, h₂, Option.bind_some, h₃]
  have hread := reads_program (c := 1) hloadable true hload numberedBoot cloneOfWriter
    (allSteps_of_mem (by simp [cloneOfWriter, writeFirst, DestroysLast])) hrun hid hsv
    (hregions.trans hlist.symm) (i := 3) (by decide) (by decide) (a := slotStartVAddr + 0x1008)
    (by decide) (by decide) (by decide) (by rw [hwritten]; decide)
  exact ⟨t, s', hrun, hwritten, hexec, hread.of_eq_ok hexec⟩

end WrittenSys

end Umm
