import Umm.Foundations.RadixVisitLog
import Umm.PageTable.DirtyPages
import Umm.PageTable.UserWalk

/-!
# The addresses that the copy walkers reconstruct

The copy walkers keep the keys of their path in one array, `idx`, and put an address together from it
when they are at a leaf.  `PageOfLeaf` says that the address is the page of the leaf: the only one in
the slot from which the walk, with `operator[]`, comes to this leaf.

The walkers write to memory while they read the source.  What they write are pages of the table
copied to and pages that were free.
-/

namespace Umm

open Foundations Foundations.Layout

variable {A : Allocator Pfn}

/-! ## The address -/

namespace LinAddr

/-- The bits of an address above bit 47 are copies of it. -/
def Canonical (la : LinAddr) : Prop :=
  ∀ i, 47 ≤ i → i < 64 → la.getLsbD i = la.getLsbD 47

/-- A page whose address has the bits of the slot is in the slot. -/
theorem valid_of_getLsbD {la : LinAddr} (haligned : la.pageDown = la)
    (hslot : ∀ i, 39 ≤ i → la.getLsbD i = slotStartVAddr.getLsbD i) : validAddress la = true := by
  have hhigh : la.toNat / 2 ^ 39 = slotStartVAddr.toNat / 2 ^ 39 := by
    refine Nat.eq_of_testBit_eq fun i => ?_
    rw [Nat.testBit_div_two_pow, Nat.testBit_div_two_pow]
    exact hslot (i + 39) (by omega)
  have hlow : la.toNat % 2 ^ 12 = 0 := by
    have hdown := la.toNat_pageDown
    rw [haligned] at hdown
    omega
  have hrange : slotStartVAddr.toNat ≤ la.toNat ∧ la.toNat < slotEndVAddr.toNat := by
    simp only [slotStartVAddr, slotEndVAddr] at hhigh ⊢
    simp at hhigh hlow ⊢
    omega
  have hne : la ≠ 0 := by
    rintro rfl
    exact absurd hrange.1 (by decide)
  simp only [validAddress, Bool.and_eq_true, bne_iff_ne, ne_eq, decide_eq_true_eq]
  exact ⟨hne, hrange.1, hrange.2⟩

end LinAddr

section Reconstruct

variable {idx : ℕ → Key}

/-- With the key of the slot at the top, an address is put together from three keys. -/
theorem reconstruct_slot (hidx : idx pml4Level = slotPml4Num) :
    reconstructLinAddrPgFromOffsets idx = slotStartVAddr ||| ((idx pdptLevel).setWidth 64 <<< 30 |||
      ((idx dirLevel).setWidth 64 <<< 21 ||| (idx tblLevel).setWidth 64 <<< 12)) := by
  have hconst : slotStartVAddr = (slotPml4Num.setWidth 64 <<< 39 ||| (0xffff : Word) <<< 48) := by
    decide
  have hhalf : (0x100 : Key) ≤ slotPml4Num := by decide
  unfold reconstructLinAddrPgFromOffsets
  rw [hidx, if_pos hhalf, hconst]
  simp only [BitVec.or_assoc, BitVec.or_comm]
  simp only [← BitVec.or_assoc, BitVec.or_comm]

/-- The three keys are below bit 39, and nothing is below bit 12. -/
theorem getLsbD_reconstruct (hidx : idx pml4Level = slotPml4Num) {i : ℕ} (hi : i < 12 ∨ 39 ≤ i) :
    (reconstructLinAddrPgFromOffsets idx).getLsbD i = slotStartVAddr.getLsbD i := by
  have hout : ∀ (k : Key) n, (n = 30 ∨ n = 21 ∨ n = 12) →
      (k.setWidth 64 <<< n).getLsbD i = false := by
    intro k n hn
    rw [BitVec.getLsbD_shiftLeft, BitVec.getLsbD_setWidth]
    by_cases hlow : i < n
    · simp [hlow]
    · rw [BitVec.getLsbD_of_ge k (i - n) (by omega)]
      simp
  rw [reconstruct_slot hidx, BitVec.getLsbD_or, BitVec.getLsbD_or, BitVec.getLsbD_or,
    hout _ 30 (by simp), hout _ 21 (by simp), hout _ 12 (by simp)]
  simp

theorem pageDown_reconstruct (hidx : idx pml4Level = slotPml4Num) :
    (reconstructLinAddrPgFromOffsets idx).pageDown = reconstructLinAddrPgFromOffsets idx := by
  refine BitVec.eq_of_getLsbD_eq fun i _ => ?_
  rw [LinAddr.getLsbD_pageDown]
  by_cases h12 : 12 ≤ i
  · simp [h12]
  · have hstart : ∀ j < 12, slotStartVAddr.getLsbD j = false := by decide
    rw [getLsbD_reconstruct hidx (Or.inl (by omega)), hstart i (by omega), Bool.and_false]

/-- The address of a page of the slot. -/
theorem validAddress_reconstruct (hidx : idx pml4Level = slotPml4Num) :
    validAddress (reconstructLinAddrPgFromOffsets idx) = true :=
  LinAddr.valid_of_getLsbD (pageDown_reconstruct hidx) fun _ hi =>
    getLsbD_reconstruct hidx (Or.inr hi)

theorem canonical_reconstruct (hidx : idx pml4Level = slotPml4Num) :
    (reconstructLinAddrPgFromOffsets idx).Canonical := by
  intro i h47 h64
  have hstart : ∀ j < 64, 47 ≤ j → slotStartVAddr.getLsbD j = true := by decide
  rw [getLsbD_reconstruct hidx (Or.inr (by omega)), getLsbD_reconstruct hidx (Or.inr (by omega)),
    hstart i h64 h47, hstart 47 (by omega) (by omega)]

end Reconstruct

namespace UmPgTblMgmt

/-! ## The page of a leaf -/

/-- A walk that returns has come to the entry it returns the result of. -/
theorem walkPageTable_steps {α : Type} {m : Pfn → Key → SimplePte} {la : LinAddr}
    {leafFn : Pfn × Key → LinAddr → ℕ → Except Stop α} {lvl : ℕ} {root : Pfn} {a : α}
    (h : walkPageTable m la leafFn lvl root = .ok a) :
    ∃ l t, (l, t) ∈ pageTables.stepsOn m lvl root la.path ∧ leafFn (t, la.index l) la l = .ok a := by
  induction lvl generalizing root with
  | zero => cases h
  | succ lvl ih =>
    unfold walkPageTable at h
    by_cases hleaf : (m root (la.index (lvl + 1))).isLeaf (lvl + 1) = true
    · rw [if_pos hleaf] at h
      exact ⟨lvl + 1, root, mem_stepsOn_succ.mpr (Or.inl ⟨rfl, rfl⟩), h⟩
    · rw [if_neg hleaf] at h
      obtain ⟨c, hnext, h⟩ := bind_eq_ok.mp h
      unfold nextTableOrFrame at hnext
      split_ifs at hnext with hexists
      have hc : pageTables.child (lvl + 1) (m root (la.path (lvl + 1))) = some c :=
        child_eq_some.mpr ⟨hexists, Bool.eq_false_iff.mpr hleaf, Except.ok.inj hnext⟩
      obtain ⟨l, t, hmem, hresult⟩ := ih h
      exact ⟨l, t, mem_stepsOn_succ.mpr (Or.inr ⟨c, hc, hmem⟩), hresult⟩

/-- `virt` is the address of the page that the leaf `p` of the table `src` maps. -/
structure PageOfLeaf (m : Pfn → Key → SimplePte) (src : Pfn) (p : Pfn × Key) (virt : LinAddr) :
    Prop where
  /-- It is the address of a page. -/
  aligned : virt.pageDown = virt
  /-- It is canonical. -/
  canonical : virt.Canonical
  /-- It is in the slot. -/
  slot : validAddress virt = true
  /-- Its walk comes to the leaf. -/
  walk : addrToPTELamb m virt src pdptLevel = .ok p
  /-- The leaf is in use. -/
  leaf : leafPte m pdptLevel src virt = some p
  /-- No walk of another page of the slot does. -/
  unique : ∀ la : LinAddr, la.pageDown = la → validAddress la = true →
    addrToPTELamb m la src pdptLevel = .ok p → la = virt

/-- The keys of a path that ends at a leaf of level 1 give the address of its page. -/
theorem pageOfLeaf_reconstruct {m : Pfn → Key → SimplePte} {src f : Pfn} {idx : ℕ → Key}
    (hsep : pageTables.Separate (fun _ => false) m pdptLevel src)
    (hidx : idx pml4Level = slotPml4Num)
    (hlocate : pageTables.locate m pdptLevel src idx = some (tblLevel, f)) :
    PageOfLeaf m src (f, idx tblLevel) (reconstructLinAddrPgFromOffsets idx) := by
  have hindex : ∀ l, 1 ≤ l → l ≤ 4 → (reconstructLinAddrPgFromOffsets idx).index l = idx l :=
    fun l h1 h4 => index_reconstruct idx h1 h4
  have hwalk : pageTables.locate m pdptLevel src (reconstructLinAddrPgFromOffsets idx).path =
      some (tblLevel, f) := by
    have hagree : Agree pdptLevel (reconstructLinAddrPgFromOffsets idx).path idx :=
      fun l h1 h3 => hindex l h1 (Nat.le_succ_of_le h3)
    rw [locate_of_agree hagree, hlocate]
  have hkey : (reconstructLinAddrPgFromOffsets idx).index tblLevel = idx tblLevel :=
    hindex 1 (by omega) (by omega)
  refine ⟨pageDown_reconstruct hidx, canonical_reconstruct hidx, validAddress_reconstruct hidx,
    ?_, ?_, fun la haligned hvalid hla => ?_⟩
  · rw [addrToPTELamb, walkPageTable_of_locate hwalk, hkey]
  · rw [leafPte, hwalk, Option.map_some, hkey]
  · obtain ⟨l, t, hmem, heq⟩ := walkPageTable_steps hla
    obtain ⟨rfl, hlast⟩ := Prod.mk.inj (Except.ok.inj heq)
    obtain ⟨rfl, hpath⟩ := hsep.path_of_stepsOn hmem (locate_mem_stepsOn hwalk)
    rw [← haligned, ← pageDown_reconstruct hidx]
    refine LinAddr.pageDown_eq_of_index hvalid (validAddress_reconstruct hidx) fun l h1 h3 => ?_
    rcases Nat.lt_or_eq_of_le h1 with hlt | rfl
    · exact hpath l hlt h3
    · exact hlast.trans hkey.symm

/-! ## The walkers -/

/-- A copy walk with a log of the leaves it visits. -/
def walkCopyLog (leaf : SimplePte → ℕ → (ℕ → Key) → CopyState A → Except Stop (CopyState A))
    (root : Pfn) (copy : Option Pfn) (lvl : ℕ) (h : PhysMem A) :
    Except (Stop × VisitLog Pfn Key) ((CopyState A × VisitLog Pfn Key) × (ℕ → Key)) :=
  pageTables.walkLeavesAt (fun s => s.1.2.mem)
    (logVisit fun p l idx s => leaf (s.2.mem p.1 p.2) l idx s) lvl root (((copy, h), []), slotKeys)

/-- What is asked of the addresses that a copy walk reconstructs. -/
structure Reconstructs (leaf : SimplePte → ℕ → (ℕ → Key) → CopyState A → Except Stop (CopyState A))
    (src : Pfn) (copy : Option Pfn) (h : PhysMem A) : Prop where
  /-- The walk with the log is the walk. -/
  walk_eq : walkCopy leaf src copy pdptLevel h =
    (eraseLog (walkCopyLog leaf src copy pdptLevel h)).map Prod.fst
  /-- At each visit, the address is that of the page of the leaf. -/
  page : ∀ x ∈ logOf (walkCopyLog leaf src copy pdptLevel h),
    PageOfLeaf h.mem src x.1 (reconstructLinAddrPgFromOffsets x.2)
  /-- Different leaves have different addresses. -/
  distinct : ∀ x ∈ logOf (walkCopyLog leaf src copy pdptLevel h),
    ∀ y ∈ logOf (walkCopyLog leaf src copy pdptLevel h), x.1 ≠ y.1 →
      reconstructLinAddrPgFromOffsets x.2 ≠ reconstructLinAddrPgFromOffsets y.2

section Walkers

variable {src : Pfn} {copy : Option Pfn} {h : PhysMem A} {s : CopyState A} {e : SimplePte}
  {idx : ℕ → Key}

theorem walkCopy_eq_eraseLog
    (leaf : SimplePte → ℕ → (ℕ → Key) → CopyState A → Except Stop (CopyState A)) (lvl : ℕ) :
    walkCopy leaf src copy lvl h = (eraseLog (walkCopyLog leaf src copy lvl h)).map Prod.fst := by
  rw [walkCopyLog, eraseLog_walkLeavesAt (fun s : CopyState A => s.2.mem), walkCopy,
    walkLeaves_eq_walkLeavesAt]
  cases pageTables.walkLeavesAt (fun s : CopyState A => s.2.mem)
    (fun p l idx s => leaf (s.2.mem p.1 p.2) l idx s) lvl src ((copy, h), slotKeys) <;> rfl

/-- The table copied to has been built from the one it started with. -/
abbrev CopyBuilt (h : PhysMem A) (copy : Option Pfn) (s : CopyState A) : Prop :=
  pageTables.Builds (fun _ => false) LeafAtTable pdptLevel h copy s.2 s.1

/-- Sharing a page builds on the table. -/
theorem cowLeaf_built (hs : CopyBuilt h copy s) :
    Outcome (cowLeaf e tblLevel idx s) (CopyBuilt h copy) (· = .kbugon) := by
  unfold cowLeaf
  split_ifs
  · refine outcome_bind.mpr ((mapAt_slot hs.mappable (fun _ hf => hf) (fun _ _ => rfl) rfl
      (SimplePte.sel_setPte ..) (SimplePte.a_setPte ..) fun hown => by cases hown).mono ?_
      fun _ h => h)
    rintro ⟨t, h'⟩ hmapped
    exact hs.trans hmapped.builds
  · exact hs

/-- Copying a page does, too. -/
theorem copyDirtyLeaf_built (hs : CopyBuilt h copy s) :
    Outcome (copyDirtyLeaf e tblLevel idx s) (CopyBuilt h copy) (· = .kbugon) := by
  unfold copyDirtyLeaf
  split_ifs
  · refine outcome_bind.mpr ((copyDirtyPage_filled _ _).mono ?_ fun _ h => h)
    rintro ⟨phys, h₁⟩ hfilled
    refine outcome_bind.mpr ((mapAt_slot hs.mappable (fun f hf => ((hfilled.isFree f).mp hf).1)
      (fun f hf => hfilled.mem_eq_of_used hf) hfilled.freeCalls (SimplePte.sel_setPte ..)
      (SimplePte.a_setPte ..) fun hown => by cases hown).mono ?_ fun _ h => h)
    rintro ⟨t, h'⟩ hmapped
    exact hs.trans hmapped.builds
  · exact hs

theorem copyDirtyCOWLeaf_built (hs : CopyBuilt h copy s) :
    Outcome (copyDirtyCOWLeaf e tblLevel idx s) (CopyBuilt h copy) (· = .kbugon) := by
  unfold copyDirtyCOWLeaf
  split_ifs
  · exact copyDirtyLeaf_built hs
  · exact cowLeaf_built hs

/-- A copy walk whose visits only build on the table copied to reconstructs the addresses. -/
theorem reconstructs_of_built
    {leaf : SimplePte → ℕ → (ℕ → Key) → CopyState A → Except Stop (CopyState A)}
    (hsrc : WellFormed pdptLevel h src) (hcopy : ∀ r, copy = some r → WellFormed pdptLevel h r)
    (hapart : ∀ f ∈ slotPages h (some src), f ∉ slotPages h copy)
    (hleaf : ∀ e idx s, CopyBuilt h copy s →
      Outcome (leaf e tblLevel idx s) (CopyBuilt h copy) (· = .kbugon)) :
    Reconstructs leaf src copy h := by
  -- a log whose addresses are those of the leaves
  let Good : VisitLog Pfn Key → Prop := fun log =>
    ∀ x ∈ log, PageOfLeaf h.mem src x.1 (reconstructLinAddrPgFromOffsets x.2)
  have hwalk : Outcome (walkCopyLog leaf src copy pdptLevel h) (fun st => Good st.1.2)
      (fun e => Good e.2) := by
    refine (walkLeavesAt_outcome (m := h.mem)
      (I := fun s : CopyState A × VisitLog Pfn Key => CopyBuilt h copy s.1 ∧ Good s.2)
      (fun s hs f hf => ?_) (fun s idx l f habove hlocate hs => ?_) ⟨?_, ?_⟩).mono
      (fun st hst => hst.2) fun _ h => h
    · exact hs.1.page_eq f (hsrc.used f (nodes_subset_frames _ _ hf)) (hapart f ⟨src, rfl, hf⟩)
    · have hfound : pageTables.leaf h.mem pdptLevel src idx = some (l, h.mem f (idx l)) := by
        rw [Layout.leaf, hlocate, Option.map_some]
      obtain rfl : l = tblLevel := Entries.leaf hsrc.entries hfound (leaf_spec hfound).2.2.2
      have hpage : PageOfLeaf h.mem src (f, idx tblLevel) (reconstructLinAddrPgFromOffsets idx) :=
        pageOfLeaf_reconstruct hsrc.separate (habove pml4Level (by decide)) hlocate
      have hlog : Good (s.2 ++ [((f, idx tblLevel), idx)]) := by
        intro x hx
        rcases List.mem_append.mp hx with hx | hx
        · exact hs.2 x hx
        · rw [List.mem_singleton.mp hx]
          exact hpage
      refine (logVisit_outcome (hleaf _ idx s.1 hs.1)).mono (fun s' hs' => ⟨hs'.1, ?_⟩)
        fun e he => ?_
      · rw [hs'.2]
        exact hlog
      · rw [he.2]
        exact hlog
    · exact Builds.refl hcopy
    · exact fun x hx => absurd hx List.not_mem_nil
  have hpage : Good (logOf (walkCopyLog leaf src copy pdptLevel h)) := by
    cases hresult : walkCopyLog leaf src copy pdptLevel h with
    | ok st => exact hwalk.of_eq_ok hresult
    | error e => exact hwalk.of_eq_error hresult
  refine ⟨walkCopy_eq_eraseLog leaf pdptLevel, hpage, fun x hx y hy hne heq => hne ?_⟩
  have hwalk' := (hpage y hy).walk
  rw [← heq, (hpage x hx).walk] at hwalk'
  exact Except.ok.inj hwalk'

end Walkers

/-- For every table without large pages: at every leaf that one of the three copy walkers visits, the
address put together from the array is the one page of the slot that leads to this leaf, and different
leaves have different addresses. -/
theorem walkers_reconstruct {src : Pfn} {copy : Option Pfn} {h : PhysMem A}
    (hsrc : WellFormed pdptLevel h src) (hcopy : ∀ r, copy = some r → WellFormed pdptLevel h r)
    (hapart : ∀ f ∈ slotPages h (some src), f ∉ slotPages h copy) :
    Reconstructs cowLeaf src copy h ∧ Reconstructs copyDirtyLeaf src copy h ∧
      Reconstructs copyDirtyCOWLeaf src copy h :=
  ⟨reconstructs_of_built hsrc hcopy hapart fun _ _ _ hs => cowLeaf_built hs,
    reconstructs_of_built hsrc hcopy hapart fun _ _ _ hs => copyDirtyLeaf_built hs,
    reconstructs_of_built hsrc hcopy hapart fun _ _ _ hs => copyDirtyCOWLeaf_built hs⟩

open Tables

/-- In the table with three pages, the addresses of these pages are put together. -/
theorem walkers_reconstruct_threePages : ∃ s src,
    run step (init twentyFrames) threePages = some s ∧ s.root 0 = some src ∧
    (Reconstructs cowLeaf src none s.h ∧ Reconstructs copyDirtyLeaf src none s.h ∧
      Reconstructs copyDirtyCOWLeaf src none s.h) ∧
    (logOf (walkCopyLog cowLeaf src none pdptLevel s.h)).map
      (fun x => reconstructLinAddrPgFromOffsets x.2) =
        [slotStartVAddr, slotStartVAddr + 0x1000, slotStartVAddr + 0x40203000] := by
  have hlog : ((run step (init twentyFrames) threePages).bind fun s => (s.root 0).map fun src =>
      (logOf (walkCopyLog cowLeaf src none pdptLevel s.h)).map
        fun x => reconstructLinAddrPgFromOffsets x.2) =
      some [slotStartVAddr, slotStartVAddr + 0x1000, slotStartVAddr + 0x40203000] := by
    decide +kernel
  simp only [Option.bind_eq_some_iff, Option.map_eq_some_iff] at hlog
  obtain ⟨s, hrun, src, hsrc, hlog⟩ := hlog
  have hwf := wf_of_run twentyFrames hrun
  refine ⟨s, src, hrun, hsrc,
    walkers_reconstruct (hwf.wellFormed hsrc) (fun r hr => by cases hr) fun f _ => ?_, hlog⟩
  rintro ⟨r, hr, -⟩
  cases hr

end UmPgTblMgmt

end Umm
