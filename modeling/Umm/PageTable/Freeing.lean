import Umm.PageTable.Mapping
import Umm.PageTable.Representation

/-!
# Freeing a table

`freePageTableLamb` frees every page that a table owns exactly once and nothing else, and the number
of leaf frames among them is what `CountOwnedPages` reports.

The traversal reads the tables while it frees them.  `freeTableReading` is the same traversal with the
reads as a parameter: the result does not depend on what a page holds once it has been freed, so that
no such page is read.
-/

namespace Umm

open Foundations Foundations.Layout

variable {A : Allocator Pfn}

namespace UmPgTblMgmt

/-- A table that owns the frames of its writable leaves: a tree of tables in use, with accessed
entries and leaves only at `TBL_LEVEL`, whose writable leaves map frames of their own. -/
abbrev OwnedTable (lvl : ℕ) (h : PhysMem A) (t : Pfn) : Prop :=
  pageTables.Mappable SimplePte.rw SlotEntry lvl h t

/-- `freePageTableLamb`, where the entries of a page are read with `page`. -/
def freeTableReading (page : PhysMem A → Pfn → Key → SimplePte) (root : Pfn) (lvl : ℕ)
    (h : PhysMem A) : PhysMem A :=
  pageTables.traverse page (accessedPages
    (fun e lvl h => if e.rw then freePages h (e.pageTabEntToPfn lvl) (orders lvl) else h)
    (fun t _ h => freePages h t 0)) lvl root h

theorem freeTableReading_mem (root : Pfn) (lvl : ℕ) (h : PhysMem A) :
    freeTableReading Heap.mem root lvl h = freePageTableLamb root lvl h := rfl

/-- The calls of `Free` that `freePageTableLamb` makes: one for each of the `tables`, which are the
pages of the table, and one for each of the `leaves`, which are the frames of its writable leaves. -/
structure FreesExactly (lvl : ℕ) (h : PhysMem A) (t : Pfn) (calls : List (A.State × Pfn))
    (tables leaves : List Pfn) : Prop where
  /-- The calls that are logged. -/
  freeCalls : (freePageTableLamb t lvl h).freeCalls = calls ++ h.freeCalls
  /-- There is one for each table and one for each leaf. -/
  perm : (calls.map Prod.snd).Perm (tables ++ leaves)
  /-- No frame is among them twice. -/
  nodup : (tables ++ leaves).Nodup
  /-- The tables are the pages of the table. -/
  mem_tables : ∀ f, f ∈ tables ↔ f ∈ pageTables.nodes h.mem lvl t
  /-- The leaves are the frames of the writable leaves. -/
  mem_leaves : ∀ f, f ∈ leaves ↔ ∃ v e, pageTables.leaf h.mem lvl t v = some (tblLevel, e) ∧
    e.rw = true ∧ e.frame = f
  /-- A frame that is no table is not freed if all the leaves that map it are read-only. -/
  kept : ∀ f ∉ tables, (∀ v e, pageTables.leaf h.mem lvl t v = some (tblLevel, e) →
    e.frame = f → e.rw = false) → f ∉ calls.map Prod.snd
  /-- `CountOwnedPages` reports how many leaf frames are freed. -/
  count : leaves.length = countOwnedPages t lvl h

section Free

variable {lvl : ℕ} {h : PhysMem A} {t : Pfn}

/-- The frames of a table are freed one after the other, whatever is read from pages that are free. -/
theorem freeTableReading_eq (ht : OwnedTable lvl h t) {page : PhysMem A → Pfn → Key → SimplePte}
    (hpage : ∀ h f, ¬ h.IsFree f → page h f = h.mem f) :
    freeTableReading page t lvl h = h.freeAll (pageTables.frameList SimplePte.rw h.mem lvl t) :=
  traverse_eq_freeAll frees_accessedPages hpage ht.separate ht.entries ht.used fun _ _ => rfl

/-- The leaves of a table are at `TBL_LEVEL`. -/
theorem level_of_mem_leaves (ht : OwnedTable lvl h t) {p : ℕ × SimplePte}
    (hp : p ∈ pageTables.leaves h.mem lvl t) : p.1 = tblLevel := by
  obtain ⟨v, hv⟩ := mem_leaves.mp hp
  exact (Entries.leaf ht.entries hv).2 (leaf_spec hv).2.2.2

/-- Counting the writable leaves of a list. -/
theorem foldl_countWritable {ls : List (ℕ × SimplePte)} (hls : ∀ p ∈ ls, p.1 = tblLevel)
    (counts : ℕ → ℕ) : ls.foldl (fun s p => countWritable p.2 p.1 s) counts 1 =
      counts 1 + (pageTables.ownedFrames SimplePte.rw ls).length := by
  induction ls generalizing counts with
  | nil => rfl
  | cons p ls ih =>
    obtain ⟨l, e⟩ := p
    obtain rfl : l = 1 := hls _ List.mem_cons_self
    rw [List.foldl_cons, ih fun p hp => hls p (List.mem_cons_of_mem _ hp)]
    have hleaf : e.isLeaf 1 = true := pageTables.isLeaf_one e
    cases hrw : e.rw with
    | true =>
      simp only [countWritable, hleaf, hrw, ownedFrames, List.filter_cons, if_true,
        Function.update_self, List.map_cons, List.length_cons]
      omega
    | false => simp [countWritable, hrw, ownedFrames]

/-- `CountOwnedPages` counts the frames of the writable leaves. -/
theorem countOwnedPages_eq_length (ht : OwnedTable lvl h t) : countOwnedPages t lvl h =
    (pageTables.ownedFrames SimplePte.rw (pageTables.leaves h.mem lvl t)).length := by
  have hfollow : ∀ (l : ℕ) (e : SimplePte) (s : ℕ → ℕ),
      (pageTables.present e = true → SlotEntry l e) →
      (accessedPages countWritable fun _ _ s => s).follow e l s = (pageTables.present e, s) :=
    fun l e s he => Prod.ext (exists_and_accessed he) rfl
  have htraverse : countWritablePagesLamb (fun _ => 0) t lvl h =
      (pageTables.leaves h.mem lvl t).foldl (fun s p => countWritable p.2 p.1 s) fun _ => 0 :=
    traverse_eq_foldl_leaves hfollow (fun _ _ _ => rfl) (fun _ _ _ _ => rfl) (fun _ _ _ => rfl)
      ht.entries
  rw [countOwnedPages, htraverse, foldl_countWritable fun p hp => level_of_mem_leaves ht hp]
  exact Nat.zero_add _

/-- The frames of the writable leaves are those that walks end at. -/
theorem mem_ownedFrames (ht : OwnedTable lvl h t) {f : Pfn} :
    f ∈ pageTables.ownedFrames SimplePte.rw (pageTables.leaves h.mem lvl t) ↔
      ∃ v e, pageTables.leaf h.mem lvl t v = some (tblLevel, e) ∧ e.rw = true ∧ e.frame = f := by
  simp only [ownedFrames, List.mem_map, List.mem_filter]
  constructor
  · rintro ⟨⟨l, e⟩, ⟨hp, hrw⟩, rfl⟩
    obtain rfl := level_of_mem_leaves ht hp
    obtain ⟨v, hv⟩ := mem_leaves.mp hp
    exact ⟨v, e, hv, hrw, rfl⟩
  · rintro ⟨v, e, hv, hrw, rfl⟩
    exact ⟨(tblLevel, e), ⟨mem_leaves.mpr ⟨v, hv⟩, hrw⟩, rfl⟩

/-- Freeing a table frees its pages and the frames of its writable leaves, each once, and nothing
else; no page is read that has been freed, and as many leaf frames are freed as `CountOwnedPages`
reports. -/
theorem freePageTableLamb_exact (ht : OwnedTable lvl h t) :
    (∃ calls tables leaves, FreesExactly lvl h t calls tables leaves) ∧
    ∀ page : PhysMem A → Pfn → Key → SimplePte, (∀ h f, ¬ h.IsFree f → page h f = h.mem f) →
      freeTableReading page t lvl h = freePageTableLamb t lvl h := by
  have hfree : freePageTableLamb t lvl h = _ := freeTableReading_eq ht fun _ _ _ => rfl
  refine ⟨?_, fun page hpage => (freeTableReading_eq ht hpage).trans hfree.symm⟩
  obtain ⟨calls, hcalls, hmap⟩ :=
    h.freeCalls_freeAll (pageTables.frameList SimplePte.rw h.mem lvl t)
  have hperm : (calls.map Prod.snd).Perm (pageTables.frameList (fun _ => false) h.mem lvl t ++
      pageTables.ownedFrames SimplePte.rw (pageTables.leaves h.mem lvl t)) := by
    rw [hmap]
    exact (List.reverse_perm _).trans frameList_perm
  exact ⟨calls, _, _,
    { freeCalls := by rw [hfree, hcalls]
      perm := hperm
      nodup := frameList_perm.nodup_iff.mp (nodup_frameList ht.separate)
      mem_tables := fun f => mem_frameList
      mem_leaves := fun f => mem_ownedFrames ht
      kept := by
        intro f hf hreadOnly hfreed
        rcases List.mem_append.mp (hperm.mem_iff.mp hfreed) with htable | hleaf
        · exact hf htable
        · obtain ⟨v, e, hv, hrw, hframe⟩ := (mem_ownedFrames ht).mp hleaf
          rw [hreadOnly v e hv hframe] at hrw
          cases hrw
      count := (countOwnedPages_eq_length ht).symm }⟩

end Free

section Fault

open Tables

variable {elf : Set Pfn} {s : Tables A elf} {i : ℕ} {virt : LinAddr} {source : PageSource elf}
  {writeFault rdPerm execDisable : Bool}

/-- A fault maps a page of the allocator, or a page of an image without write access, into a table that
owns the frames of its writable leaves. -/
theorem ownedTable_pageFault (hroot : ∀ t, s.root i = some t → OwnedTable pdptLevel s.h t)
    (hsource : rdPerm = false ∨ ∃ page, source = .alloc page) :
    Outcome (s.pageFault i virt source writeFault rdPerm execDisable)
      (fun s' => ∀ t, s'.root i = some t → OwnedTable pdptLevel s'.h t) (· = .kbugon) := by
  have hmapped : ∀ (phys : Pfn) (h₁ : PhysMem A), (∀ f, h₁.IsFree f → s.h.IsFree f) →
      (∀ f, ¬ s.h.IsFree f → h₁.mem f = s.h.mem f) → h₁.freeCalls = s.h.freeCalls →
      (rdPerm = true → s.h.IsFree phys ∧ ¬ h₁.IsFree phys) →
      Outcome (mapIntoPgTbl (s.root i) phys virt tblLevel pdptLevel writeFault rdPerm execDisable h₁)
        (fun p => OwnedTable pdptLevel p.2 p.1) (· = .kbugon) := by
    intro phys h₁ hfree hmem hcalls hown
    refine (mapAt_slot hroot hfree hmem hcalls (SimplePte.sel_setPte ..) (SimplePte.a_setPte ..)
      fun hrw => ?_).mono (fun p hp => hp.builds.mappable _ rfl) fun _ h => h
    rw [SimplePte.frame_setPte]
    exact hown ((SimplePte.rw_setPte ..).symm.trans hrw)
  have hupdate : ∀ p : Pfn × PhysMem A, OwnedTable pdptLevel p.2 p.1 →
      ∀ t, Function.update s.root i (some p.1) i = some t → OwnedTable pdptLevel p.2 t := by
    intro p hp t ht
    rw [Function.update_self] at ht
    exact Option.some.inj ht ▸ hp
  unfold pageFault
  refine outcome_bind.mpr ?_
  cases source with
  | alloc page =>
    refine outcome_bind.mpr (Heap.alloc_outcome rfl fun f h₁ halloc => ?_)
    have hfilled := halloc.filled (p := page)
    refine outcome_bind.mpr ((hmapped f _ (fun g hg => ((hfilled.isFree g).mp hg).1)
      (fun g hg => hfilled.mem_eq_of_used hg) hfilled.freeCalls fun _ =>
        ⟨hfilled.free, fun hf => ((hfilled.isFree f).mp hf).2 rfl⟩).mono hupdate fun _ h => h)
  | elf f hf =>
    have hreadOnly : rdPerm = false := hsource.resolve_right fun ⟨_, h⟩ => by cases h
    refine outcome_bind.mpr ((hmapped f s.h (fun _ hg => hg) (fun _ _ => rfl) rfl fun hrw => ?_).mono
      hupdate fun _ h => h)
    rw [hreadOnly] at hrw
    cases hrw

/-- The table with three pages, two of them its own, is freed with these two. -/
theorem freePageTableLamb_exact_threePages : ∃ s t,
    run step (init twentyFrames) threePages = some s ∧ s.root 0 = some t ∧
    countOwnedPages t pdptLevel s.h = 2 ∧
    (∃ calls tables leaves, FreesExactly pdptLevel s.h t calls tables leaves) ∧
    ∀ page : PhysMem (Allocator.freeList Pfn) → Pfn → Key → SimplePte,
      (∀ h f, ¬ h.IsFree f → page h f = h.mem f) →
      freeTableReading page t pdptLevel s.h = freePageTableLamb t pdptLevel s.h := by
  have hcount : ((run step (init twentyFrames) threePages).bind fun s => (s.root 0).map fun t =>
      countOwnedPages t pdptLevel s.h) = some 2 := by
    decide +kernel
  simp only [Option.bind_eq_some_iff, Option.map_eq_some_iff] at hcount
  obtain ⟨s, hrun, t, ht, hcount⟩ := hcount
  have howned : ∀ r, s.root 0 = some r → OwnedTable pdptLevel s.h r := by
    refine run_invariant (I := fun s : Tables (Allocator.freeList Pfn) {100} =>
        ∀ r, s.root 0 = some r → OwnedTable pdptLevel s.h r)
      (C := fun _ a => ∃ virt source w rd x, a = .pageFault 0 virt source w rd x ∧
        (rd = false ∨ ∃ page, source = .alloc page)) ?_ (fun r hr => by cases hr)
      (allSteps_of_mem ?_) hrun
    · rintro s a s' ⟨virt, source, w, rd, x, rfl, hsource⟩ hroot hstep
      exact (ownedTable_pageFault hroot hsource).of_eq_ok (step_eq_some.mp hstep).2
    · simp [threePages]
  exact ⟨s, t, hrun, ht, hcount, freePageTableLamb_exact (howned t ht)⟩

end Fault

end UmPgTblMgmt

end Umm
