import Umm.Foundations.RadixLevel
import Umm.PageTable.Counters
import Umm.PageTable.Mapping

/-!
# Mapping large pages

`mapIntoPgTbl` accepts `DIR_LEVEL` and `PDPT_LEVEL` as the level to map at, but the entry that
`setPte` makes does not have the bit by which the walkers tell a large page from a link.  Whatever it
is given, they take the memory of the page for a table of the next level.
-/

namespace Umm

open Foundations Foundations.Layout

variable {A : Allocator Pfn}

namespace UmPgTblMgmt

/-- Two addresses are on one page of the level, below a table of `PDPT_LEVEL`. -/
def SamePageOf (mapLvl : ℕ) (la lb : LinAddr) : Prop :=
  ∀ i, mapLvl ≤ i → i ≤ pdptLevel → la.index i = lb.index i

/-- The leaf that a walk ends at, with its level. -/
def leafAndLevel (m : Pfn → Key → SimplePte) (la : LinAddr) (lvl : ℕ) (root : Pfn) :
    Except Stop ((Pfn × Key) × ℕ) :=
  walkPageTable m la (fun curPte _ lvl => .ok (curPte, lvl)) lvl root

/-- The table `t` maps the page of `virt` of the level `mapLvl` to `phys`, and all walkers see it. -/
structure LargePageMapped (mapLvl : ℕ) (h : PhysMem A) (root : Option Pfn) (phys : Pfn)
    (virt : LinAddr) (t : Pfn) (h' : PhysMem A) : Prop where
  /-- The walk of every address of the page ends at the new entry, as a leaf with the address. -/
  leaf : ∀ la, SamePageOf mapLvl la virt → ∃ tab,
    leafAndLevel h'.mem la pdptLevel t = .ok ((tab, virt.index mapLvl), mapLvl) ∧
    SimplePte.exists (h'.mem tab (virt.index mapLvl)) = true ∧
    SimplePte.isLeaf (h'.mem tab (virt.index mapLvl)) mapLvl = true ∧
    SimplePte.pageTabEntToPfn (h'.mem tab (virt.index mapLvl)) mapLvl = phys
  /-- One more page is counted, at its level. -/
  count : ∀ pml4Root counts, counts.length = 5 →
    countValidPages h'.mem pml4Root counts (some t) pdptLevel =
      (root.elim (.ok counts) fun r => countValidPages h.mem pml4Root counts (some r) pdptLevel).map
        (bump · mapLvl)
  /-- The content of the page does not matter to the walks. -/
  walks : ∀ page la, leafAndLevel (Function.update h'.mem phys page) la pdptLevel t =
    leafAndLevel h'.mem la pdptLevel t
  /-- Nor to the traversals. -/
  traversals : ∀ page (σ : Type) (V : Visitor SimplePte Pfn σ) (s : σ),
    pageTables.traverse (fun _ => Function.update h'.mem phys page) V pdptLevel t s =
      pageTables.traverse (fun _ => h'.mem) V pdptLevel t s

section Walk

variable {m : Pfn → Key → SimplePte} {la : LinAddr} {lvl l : ℕ} {t c : Pfn} {e : SimplePte}

/-- A walk goes on from the table that the entry of a level links to. -/
theorem walkPageTable_of_entryOn {α : Type} {leafFn : Pfn × Key → LinAddr → ℕ → Except Stop α}
    (hentry : pageTables.entryOn m lvl t la.path (l + 1) = some e)
    (hc : pageTables.child (l + 1) e = some c) :
    walkPageTable m la leafFn lvl t = walkPageTable m la leafFn l c := by
  have hstep : ∀ {lvl t c}, pageTables.child (lvl + 1) (m t (la.path (lvl + 1))) = some c →
      walkPageTable m la leafFn (lvl + 1) t = walkPageTable m la leafFn lvl c := by
    intro lvl t c hc
    obtain ⟨hpresent, hleaf, rfl⟩ := child_eq_some.mp hc
    have hexists : SimplePte.exists (m t (la.index (lvl + 1))) = true := hpresent
    have hisLeaf : SimplePte.isLeaf (m t (la.index (lvl + 1))) (lvl + 1) = false := hleaf
    rw [walkPageTable, hisLeaf, if_neg Bool.false_ne_true, nextTableOrFrame_of_exists hexists]
    rfl
  induction lvl generalizing t with
  | zero => cases hentry
  | succ lvl ih =>
    rw [entryOn] at hentry
    split_ifs at hentry with hl
    · obtain rfl := Nat.succ.inj hl
      exact hstep (by rwa [Option.some.inj hentry])
    · obtain ⟨r, hr, hentry⟩ := Option.bind_eq_some_iff.mp hentry
      rw [hstep hr, ih hentry]

/-- A walk ends at a level of its table. -/
theorem level_of_leafAndLevel {p : Pfn × Key} (hwalk : leafAndLevel m la lvl t = .ok (p, l)) :
    l ≤ lvl := by
  induction lvl generalizing t with
  | zero => cases hwalk
  | succ lvl ih =>
    rw [leafAndLevel, walkPageTable] at hwalk
    split_ifs at hwalk
    · exact Nat.le_of_eq (Prod.mk.inj (Except.ok.inj hwalk)).2.symm
    · cases hnext : nextTableOrFrame m t (la.index (lvl + 1)) (lvl + 1) with
      | error err =>
        rw [hnext] at hwalk
        cases hwalk
      | ok c =>
        rw [hnext] at hwalk
        exact Nat.le_succ_of_le (ih hwalk)

/-- What the entry of a level links to is a page of the table. -/
theorem mem_nodes_of_entryOn {v : ℕ → Key} (hentry : pageTables.entryOn m lvl t v (l + 1) = some e)
    (hc : pageTables.child (l + 1) e = some c) (hl : 1 ≤ l) : c ∈ pageTables.nodes m lvl t := by
  induction lvl generalizing t with
  | zero => cases hentry
  | succ lvl ih =>
    rw [entryOn] at hentry
    split_ifs at hentry with hlvl
    · obtain rfl := Nat.succ.inj hlvl
      obtain ⟨n, rfl⟩ : ∃ n, l = n + 1 := ⟨l - 1, by omega⟩
      exact nodes_subset_of_child (by rwa [Option.some.inj hentry]) root_mem_frames
    · obtain ⟨r, hr, hentry⟩ := Option.bind_eq_some_iff.mp hentry
      exact nodes_subset_of_child hr (ih hentry)

end Walk

/-- Mapping a large page never has its effect: the walk of every address of the page goes on in the
page, which has become a page of the table. -/
theorem mapIntoPgTbl_large {h h' : PhysMem A} {root : Option Pfn} {phys t : Pfn} {virt : LinAddr}
    {mapLvl : ℕ} {writeFault rdPerm execDisable : Bool}
    (hlvl : mapLvl = dirLevel ∨ mapLvl = pdptLevel)
    (hroot : ∀ r, root = some r →
      pageTables.Mappable (fun _ => false) (fun _ _ => True) pdptLevel h r)
    (hopen : ∀ i e, mapLvl < i → entryAt h.mem root pdptLevel virt i = some e → e.exists = true →
      e.isLeaf i = false)
    (hmap : mapIntoPgTbl root phys virt mapLvl pdptLevel writeFault rdPerm execDisable h =
      .ok (t, h')) :
    ¬ LargePageMapped mapLvl h root phys virt t h' ∧
    phys ∈ pageTables.nodes h'.mem pdptLevel t ∧
    ∀ la, SamePageOf mapLvl la virt →
      leafAndLevel h'.mem la pdptLevel t = leafAndLevel h'.mem la (mapLvl - 1) phys := by
  obtain ⟨l, rfl, h1, h2⟩ : ∃ l, mapLvl = l + 1 ∧ 1 ≤ l ∧ l ≤ 2 := by
    rcases hlvl with rfl | rfl
    · exact ⟨1, rfl, by decide, by decide⟩
    · exact ⟨2, rfl, by decide, by decide⟩
  have hmapped : Outcome
      (mapIntoPgTbl root phys virt (l + 1) pdptLevel writeFault rdPerm execDisable h)
      (fun p => pageTables.MappedTo (l + 1) pdptLevel virt.path
        (SimplePte.setPte phys writeFault true rdPerm true execDisable) h root p.1 p.2)
      (· = .kbugon) := by
    refine mapAt_mappedTo (by omega) (show l + 1 ≤ 3 by omega) (by decide) fun r hr => ?_
    have htable := hroot r hr
    refine ⟨nodup_tablesTo htable.separate, fun f hf => htable.used f (tablesTo_subset hf), ?_⟩
    intro i e hi hentry
    exact hopen i e hi (by rw [hr]; exact hentry)
  have hentry := (hmapped.of_eq_ok hmap).entry
  have hchild : pageTables.child (l + 1)
      (SimplePte.setPte phys writeFault true rdPerm true execDisable) = some phys := by
    refine child_eq_some.mpr ⟨SimplePte.sel_setPte .., ?_, ?_⟩
    · change SimplePte.isLeaf _ (l + 1) = false
      simp [SimplePte.isLeaf, show l ≠ 0 by omega]
    · exact SimplePte.pageTabEntToPfn_setPte _ _ _ _ _ _ (by omega) (by omega)
  have hwalk : ∀ la, SamePageOf (l + 1) la virt →
      leafAndLevel h'.mem la pdptLevel t = leafAndLevel h'.mem la l phys := by
    intro la hla
    have hla' : pageTables.entryOn h'.mem pdptLevel t la.path (l + 1) = _ :=
      (entryOn_of_agree (show l + 1 ≤ 3 by omega) hla).trans hentry
    exact walkPageTable_of_entryOn hla' hchild
  refine ⟨fun hlarge => ?_, mem_nodes_of_entryOn hentry hchild h1, hwalk⟩
  obtain ⟨tab, hleaf, -⟩ := hlarge.leaf virt fun _ _ _ => rfl
  rw [hwalk virt fun _ _ _ => rfl] at hleaf
  exact absurd (level_of_leafAndLevel hleaf) (by omega)

/-- The first 2M of the slot are mapped to the frames from 512 on, in a new table. -/
theorem mapIntoPgTbl_large_sixPages : ∃ t h',
    mapIntoPgTbl none 512 slotStartVAddr dirLevel pdptLevel true true false sixPages =
      .ok (t, h') ∧
    ¬ LargePageMapped dirLevel sixPages none 512 slotStartVAddr t h' ∧
    (512 : Pfn) ∈ pageTables.nodes h'.mem pdptLevel t ∧
    ∀ la, SamePageOf dirLevel la slotStartVAddr →
      leafAndLevel h'.mem la pdptLevel t = leafAndLevel h'.mem la tblLevel 512 := by
  obtain ⟨t, h', hmap⟩ : ∃ t h',
      mapIntoPgTbl none 512 slotStartVAddr dirLevel pdptLevel true true false sixPages =
        .ok (t, h') := ⟨_, _, rfl⟩
  exact ⟨t, h', hmap, mapIntoPgTbl_large (Or.inl rfl) (fun r hr => by cases hr)
    (fun i e _ he => by cases he) hmap⟩

/-- There, the walk of the first address ends in the page, at `TBL_LEVEL`. -/
theorem not_largePageMapped_sixPages : ∃ t h',
    mapIntoPgTbl none 512 slotStartVAddr dirLevel pdptLevel true true false sixPages =
      .ok (t, h') ∧
    leafAndLevel h'.mem slotStartVAddr pdptLevel t = .ok ((512, 0), tblLevel) ∧
    ¬ LargePageMapped dirLevel sixPages none 512 slotStartVAddr t h' := by
  obtain ⟨t, h', hmap, hwalk⟩ : ∃ t h',
      mapIntoPgTbl none 512 slotStartVAddr dirLevel pdptLevel true true false sixPages =
        .ok (t, h') ∧
      leafAndLevel h'.mem slotStartVAddr pdptLevel t = .ok ((512, 0), tblLevel) :=
    ⟨_, _, rfl, by decide⟩
  refine ⟨t, h', hmap, hwalk, fun hlarge => ?_⟩
  obtain ⟨tab, hleaf, -⟩ := hlarge.leaf slotStartVAddr fun _ _ _ => rfl
  rw [hwalk] at hleaf
  exact absurd (Prod.mk.inj (Except.ok.inj hleaf)).2 (by decide)

end UmPgTblMgmt

end Umm
