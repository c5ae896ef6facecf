import Umm.Foundations.Run
import Umm.PageTable.Copy

/-!
# Families of page tables

The machine of this file has any number of page tables, all empty at first.  Page faults map pages
into them, from the allocator or from the ELF images and with any permissions, the processor sets
`A` and `DIRTY` bits, and the two copy-on-write walkers copy one table to another.

`Tables.Wf` is its invariant: the tables are apart from each other and from the images, and what they
map is in use and no page of a table.
-/

namespace Umm

open Foundations Foundations.Layout

variable {A : Allocator Pfn} {elf : Set Pfn}

/-- Where a page fault gets the page it maps. -/
inductive PageSource (elf : Set Pfn) where
  /-- From the allocator, with the content that is put on it. -/
  | alloc (page : Page)
  /-- From the ELF images. -/
  | elf (f : Pfn) (hf : f ∈ elf)

/-- Page tables in one memory. -/
structure Tables (A : Allocator Pfn) (elf : Set Pfn) where
  /-- Physical memory with the page allocator. -/
  h : PhysMem A
  /-- The root of each table, at `PDPT_LEVEL`; an empty table has none. -/
  root : ℕ → Option Pfn

/-- What happens to page tables. -/
inductive TableStep (elf : Set Pfn) where
  /-- A page fault maps a page. -/
  | pageFault (i : ℕ) (virt : LinAddr) (source : PageSource elf)
      (writeFault rdPerm execDisable : Bool)
  /-- The processor sets the `A` bits of a translation. -/
  | setAccessed (i : ℕ) (virt : LinAddr)
  /-- The processor sets the `DIRTY` bit of a translation. -/
  | setDirty (i : ℕ) (virt : LinAddr)
  /-- `walkPgTblCOW` copies a table to another. -/
  | cow (src dst : ℕ)
  /-- `walkPgTblCopyDirtyCOW` copies a table to another. -/
  | copyDirtyCOW (src dst : ℕ)

namespace Tables

/-! ## The machine -/

/-- All tables are empty. -/
def init (boot : BootMem A elf) : Tables A elf where
  h := boot.h
  root := fun _ => none

/-- The page for a fault. -/
def pageOf (source : PageSource elf) (h : PhysMem A) : Except Stop (Pfn × PhysMem A) :=
  match source with
  | .alloc page => do
    let (f, h) ← h.alloc .kbugon
    .ok (f, h.setPage f page)
  | .elf f _ => .ok (f, h)

/-- Map a page at `TBL_LEVEL`. -/
def pageFault (s : Tables A elf) (i : ℕ) (virt : LinAddr) (source : PageSource elf)
    (writeFault rdPerm execDisable : Bool) : Except Stop (Tables A elf) := do
  let (phys, h) ← pageOf source s.h
  let (pdpt, h) ← UmPgTblMgmt.mapIntoPgTbl (s.root i) phys virt tblLevel pdptLevel writeFault rdPerm
    execDisable h
  .ok { h, root := Function.update s.root i (some pdpt) }

/-- Set the `A` bits of a translation. -/
def setAccessed (s : Tables A elf) (i : ℕ) (virt : LinAddr) : Tables A elf :=
  match s.root i with
  | none => s
  | some t =>
    let mem := pageTables.updatePath SimplePte.setAccessed s.h.mem pdptLevel t virt.path
    { s with h := { s.h with mem } }

/-- Set the `DIRTY` bit of a translation. -/
def setDirty (s : Tables A elf) (i : ℕ) (virt : LinAddr) : Tables A elf :=
  match s.root i with
  | none => s
  | some t => { s with h := markLeaf SimplePte.setDirty s.h t virt.path }

/-- Copy the table `src` to the table `dst`. -/
def copy (walk : Pfn → Option Pfn → ℕ → PhysMem A → Except Stop (UmPgTblMgmt.CopyState A))
    (s : Tables A elf) (src dst : ℕ) : Except Stop (Tables A elf) :=
  match s.root src with
  | none => .error .nullDeref
  | some r => do
    let (copy, h) ← walk r (s.root dst) pdptLevel s.h
    .ok { h, root := Function.update s.root dst copy }

/-- What a step does. -/
def exec (s : Tables A elf) : TableStep elf → Except Stop (Tables A elf)
  | .pageFault i virt source writeFault rdPerm execDisable =>
    s.pageFault i virt source writeFault rdPerm execDisable
  | .setAccessed i virt => .ok (s.setAccessed i virt)
  | .setDirty i virt => .ok (s.setDirty i virt)
  | .cow src dst => s.copy UmPgTblMgmt.walkPgTblCOW src dst
  | .copyDirtyCOW src dst => s.copy UmPgTblMgmt.walkPgTblCopyDirtyCOW src dst

/-- A table is copied to another one, not to itself. -/
def admits : TableStep elf → Bool
  | .cow src dst | .copyDirtyCOW src dst => src != dst
  | _ => true

/-- The machine: a step that stops the core is not taken. -/
def step (s : Tables A elf) (a : TableStep elf) : Option (Tables A elf) :=
  if admits a then (s.exec a).toOption else none

theorem step_eq_some {s s' : Tables A elf} {a : TableStep elf} :
    s.step a = some s' ↔ admits a = true ∧ s.exec a = .ok s' :=
  guarded_eq_some

/-! ## The invariant -/

/-- The tables own their pages only. -/
abbrev noFrames (_ : SimplePte) : Bool := false

/-- The tables are apart, and what they map is in use and no page of a table. -/
structure Wf (s : Tables A elf) : Prop where
  /-- The tables are trees with pages of their own. -/
  apart : pageTables.Apart noFrames SlotEntry pdptLevel elf s.h s.root
  /-- What is mapped is in use. -/
  used : ∀ i v e, slotLeaf s.h (s.root i) v = some e → ¬ s.h.IsFree e.frame
  /-- It is no page of a table. -/
  no_page : ∀ i v e, slotLeaf s.h (s.root i) v = some e → ∀ j, e.frame ∉ slotPages s.h (s.root j)

variable {s s' : Tables A elf}

/-- A frame that may be mapped: it has been mapped before, or belongs to an image, or is new. -/
def Mappable (s : Tables A elf) (h : PhysMem A) (root : Option Pfn) (f : Pfn) : Prop :=
  (∃ j v e, slotLeaf s.h (s.root j) v = some e ∧ e.frame = f) ∨ f ∈ elf ∨
    s.h.IsFree f ∧ ¬ h.IsFree f ∧ f ∉ slotPages h root

/-- One table is built on, and all that it maps may be mapped. -/
theorem Wf.of_builds (hwf : s.Wf) {i : ℕ} {h : PhysMem A} {root : Option Pfn}
    (hbuilds : BuildsOf noFrames s.h (s.root i) h root)
    (hmappable : ∀ v e, slotLeaf h root v = some e → s.Mappable h root e.frame) :
    ({ h, root := Function.update s.root i root } : Tables A elf).Wf := by
  have hpages : ∀ j ≠ i, slotPages h (s.root j) = slotPages s.h (s.root j) :=
    fun j hj => hwf.apart.held_eq hbuilds.toEvolves hj _
  have hused : ∀ f, ¬ s.h.IsFree f → ¬ h.IsFree f := fun f hf hfree => hf (hbuilds.isFree f hfree)
  -- frames in use that are no pages are no pages of the table that has been built
  have hkept : ∀ f, ¬ s.h.IsFree f → (∀ j, f ∉ slotPages s.h (s.root j)) → f ∉ slotPages h root :=
    fun f hf hpage hmem => (hbuilds.nodes_subset f hmem).elim (hpage i) hf
  have hself : ∀ f, s.Mappable h root f →
      ¬ h.IsFree f ∧ f ∉ slotPages h root ∧ ∀ j ≠ i, f ∉ slotPages s.h (s.root j) := by
    rintro f (⟨j, v, e, he, rfl⟩ | helf | ⟨hfree, hf, hpage⟩)
    · have hf := hwf.used j v e he
      exact ⟨hused _ hf, hkept _ hf (hwf.no_page j v e he), fun k _ => hwf.no_page j v e he k⟩
    · have hf := hwf.apart.used_of_pinned f helf
      have hno : ∀ j, f ∉ slotPages s.h (s.root j) :=
        fun j hmem => hwf.apart.not_pinned j f hmem helf
      exact ⟨hused _ hf, hkept _ hf hno, fun k _ => hno k⟩
    · exact ⟨hf, hpage, fun k _ hmem => hwf.apart.used hmem hfree⟩
  have hleaf : ∀ j v e, slotLeaf h (Function.update s.root i root j) v = some e →
      ¬ h.IsFree e.frame ∧ e.frame ∉ slotPages h root ∧
        ∀ k ≠ i, e.frame ∉ slotPages s.h (s.root k) := by
    intro j v e he
    by_cases hj : j = i
    · subst hj
      rw [Function.update_self] at he
      exact hself _ (hmappable v e he)
    · rw [Function.update_of_ne hj,
        slotLeaf_congr fun f hf => hwf.apart.mem_eq hbuilds.toEvolves hj hf] at he
      exact hself _ (Or.inl ⟨j, v, e, he, rfl⟩)
  refine ⟨hwf.apart.evolve hbuilds.toEvolves, fun j v e he => (hleaf j v e he).1,
    fun j v e he k => ?_⟩
  obtain ⟨-, hroot, hother⟩ := hleaf j v e he
  change e.frame ∉ slotPages h (Function.update s.root i root k)
  by_cases hk : k = i
  · subst hk
    rw [Function.update_self]
    exact hroot
  · rw [Function.update_of_ne hk, hpages k hk]
    exact hother k hk

/-- What a table mapped before may be mapped again. -/
theorem mappable_of_leaf {j : ℕ} {v : ℕ → Key} {e : SimplePte} {h : PhysMem A} {root : Option Pfn}
    (he : slotLeaf s.h (s.root j) v = some e) : s.Mappable h root e.frame :=
  Or.inl ⟨j, v, e, he, rfl⟩

theorem wf_init (boot : BootMem A elf) : (init boot).Wf where
  apart :=
    { mappable := fun i t ht => by cases ht
      disjoint := fun i j _ => Set.disjoint_left.mpr fun f ⟨t, ht, _⟩ => by cases ht
      used_of_pinned := boot.used
      not_pinned := fun i f ⟨t, ht, _⟩ => by cases ht }
  used := fun i v e he => by cases he
  no_page := fun i v e he => by cases he

/-! ## The steps -/

/-- A page fault maps the page. -/
theorem pageFault_mapped (hwf : s.Wf) (i : ℕ) (virt : LinAddr) (source : PageSource elf)
    (writeFault rdPerm execDisable : Bool) :
    Outcome (s.pageFault i virt source writeFault rdPerm execDisable) Wf (· = .kbugon) := by
  have hmapped : ∀ (phys : Pfn) (h₁ : PhysMem A), (∀ f, h₁.IsFree f → s.h.IsFree f) →
      (∀ f, ¬ s.h.IsFree f → h₁.mem f = s.h.mem f) → h₁.freeCalls = s.h.freeCalls →
      phys ∈ elf ∨ s.h.IsFree phys ∧ ¬ h₁.IsFree phys →
      Outcome (UmPgTblMgmt.mapIntoPgTbl (s.root i) phys virt tblLevel pdptLevel writeFault rdPerm
        execDisable h₁)
        (fun p => ({ h := p.2, root := Function.update s.root i (some p.1) } : Tables A elf).Wf)
        (· = .kbugon) := by
    intro phys h₁ hfree hmem hcalls hphys
    refine (mapAt_slot (hwf.apart.mappable i) hfree hmem hcalls (SimplePte.sel_setPte ..)
      (SimplePte.a_setPte ..) (fun hown => by cases hown)).mono ?_ fun _ h => h
    rintro ⟨pdpt, h₂⟩ (hslot : SlotMapped noFrames ..)
    refine hwf.of_builds hslot.builds fun v e he => ?_
    by_cases hv : SamePage v virt.path
    · obtain rfl := Option.some.inj ((hslot.entered v hv).symm.trans he)
      rw [SimplePte.frame_setPte]
      refine Or.inr (hphys.imp_right fun ⟨hphys, hused⟩ => ?_)
      have hcontent := hslot.content
      rw [SimplePte.frame_setPte] at hcontent
      have hpage : phys ∉ slotPages s.h (s.root i) := fun hf => hwf.apart.used hf hphys
      exact ⟨hphys, fun hf => hused (hslot.isFree _ hf), (hcontent hused hpage).2⟩
    · rw [hslot.kept v hv] at he
      exact mappable_of_leaf he
  unfold pageFault
  refine outcome_bind.mpr ?_
  cases source with
  | alloc page =>
    refine outcome_bind.mpr (Heap.alloc_outcome rfl fun f h₁ halloc => ?_)
    have hfilled := halloc.filled (p := page)
    refine outcome_bind.mpr (hmapped f _ (fun g hg => ((hfilled.isFree g).mp hg).1)
      (fun g hg => hfilled.mem_eq_of_used hg) hfilled.freeCalls (Or.inr ⟨hfilled.free, fun hf => ?_⟩))
    exact ((hfilled.isFree f).mp hf).2 rfl
  | elf f hf =>
    exact outcome_bind.mpr (hmapped f s.h (fun _ hg => hg) (fun _ _ => rfl) rfl (Or.inl hf))

/-- Setting the `A` bits of a translation changes nothing: they are set. -/
theorem setAccessed_eq (hwf : s.Wf) (i : ℕ) (virt : LinAddr) : s.setAccessed i virt = s := by
  unfold setAccessed
  cases ht : s.root i with
  | none => rfl
  | some t =>
    simp only [updatePath_eq (fun _ e he => SimplePte.setAccessed_of_a e he.1)
      (hwf.apart.mappable i t ht).entries]

/-- Setting the `DIRTY` bit of a translation changes no frame. -/
theorem wf_setDirty (hwf : s.Wf) (i : ℕ) (virt : LinAddr) : (s.setDirty i virt).Wf := by
  unfold setDirty
  cases ht : s.root i with
  | none => exact hwf
  | some t =>
    cases hleaf : slotLeaf s.h (some t) virt.path with
    | none => simpa only [markLeaf_of_none hleaf] using hwf
    | some e =>
      have hmarked : Marked SlotEntry noFrames .. :=
        marked_markLeaf marks_setDirty (fun _ => rfl) (hwf.apart.mappable i t ht) hleaf
      have hbuilds := hmarked.builds
      rw [← ht] at hbuilds hleaf
      have hwf' := hwf.of_builds hbuilds fun v e' he' => ?_
      · rwa [Function.update_eq_self] at hwf'
      · rw [ht] at he'
        by_cases hv : SamePage v virt.path
        · obtain rfl := Option.some.inj ((hmarked.marked v hv).symm.trans he')
          have hframe : e.setDirty.frame = e.frame := SimplePte.pageTabEntToPfn_setDirty e _
          rw [hframe]
          exact mappable_of_leaf hleaf
        · rw [hmarked.kept v hv, ← ht] at he'
          exact mappable_of_leaf he'

/-- A table may be copied to another one. -/
theorem Wf.copyable (hwf : s.Wf) {src dst : ℕ} {r : Pfn} (hr : s.root src = some r)
    (hne : src ≠ dst) (deep : SimplePte → Bool) : Copyable noFrames deep r s.h (s.root dst) where
  rw_of_own := fun _ hown => by cases hown
  source := hwf.apart.mappable src r hr
  copy := hwf.apart.mappable dst
  pages_apart := fun f hf hf' =>
    Set.disjoint_left.mp (hwf.apart.disjoint src dst hne) (hr ▸ hf) hf'
  used := fun w e he _ => hwf.used src w e (hr ▸ he)
  frames_apart := fun w e he _ => hwf.no_page src w e (hr ▸ he) dst

/-- A copy maps what may be mapped. -/
theorem Wf.of_copied (hwf : s.Wf) {src dst : ℕ} {r : Pfn} (hr : s.root src = some r)
    {deep : SimplePte → Bool} {p : UmPgTblMgmt.CopyState A}
    (hcopied : Copied noFrames deep r s.h (s.root dst) Set.univ p) :
    ({ h := p.2, root := Function.update s.root dst p.1 } : Tables A elf).Wf := by
  refine hwf.of_builds hcopied.builds fun v e' he' => ?_
  by_cases hclean : ∀ e, slotLeaf s.h (some r) v = some e → e.dirty = false
  · rw [hcopied.kept v fun _ => hclean] at he'
    exact mappable_of_leaf he'
  · push Not at hclean
    obtain ⟨e, he, hdirty⟩ := hclean
    obtain ⟨e'', he'', hcopy⟩ := hcopied.copied v (Set.mem_univ v) e he (by simpa using hdirty)
    obtain rfl := Option.some.inj (he'.symm.trans he'')
    cases hdeep : deep e with
    | true =>
      obtain ⟨hfree, hused, hpage, -⟩ := hcopy.own hdeep
      exact Or.inr (Or.inr ⟨hfree, hused, hpage⟩)
    | false =>
      rw [hcopy.shared hdeep]
      rw [← hr] at he
      exact mappable_of_leaf he

/-- What a copy of the table `src` to the table `dst` does. -/
def CopiedTo (deep : SimplePte → Bool) (s : Tables A elf) (src dst : ℕ) (s' : Tables A elf) : Prop :=
  ∃ r, s.root src = some r ∧ Copied noFrames deep r s.h (s.root dst) Set.univ (s'.root dst, s'.h)

/-- The rule of the copies. -/
theorem copy_outcome {deep : SimplePte → Bool}
    {walk : Pfn → Option Pfn → ℕ → PhysMem A → Except Stop (UmPgTblMgmt.CopyState A)}
    (hwf : s.Wf) {src dst : ℕ} (hne : src ≠ dst)
    (hwalk : ∀ r, Copyable noFrames deep r s.h (s.root dst) →
      Outcome (walk r (s.root dst) pdptLevel s.h)
        (Copied noFrames deep r s.h (s.root dst) Set.univ) (· = .kbugon)) :
    Outcome (s.copy walk src dst) (fun s' => s'.Wf ∧ s.CopiedTo deep src dst s')
      (fun _ => True) := by
  unfold copy
  cases hr : s.root src with
  | none => trivial
  | some r =>
    refine outcome_bind.mpr ((hwalk r (hwf.copyable hr hne deep)).mono ?_ fun _ _ => trivial)
    rintro ⟨root, h⟩ hcopied
    refine ⟨hwf.of_copied hr hcopied, r, hr, ?_⟩
    simpa using hcopied

/-- Every step keeps the tables apart. -/
theorem exec_outcome (hwf : s.Wf) {a : TableStep elf} (hadmits : admits a = true) :
    Outcome (s.exec a) Wf (fun _ => True) := by
  cases a with
  | pageFault i virt source writeFault rdPerm execDisable =>
    exact (pageFault_mapped hwf i virt source writeFault rdPerm execDisable).mono (fun _ h => h)
      fun _ _ => trivial
  | setAccessed i virt =>
    rw [exec, setAccessed_eq hwf]
    exact hwf
  | setDirty i virt => exact wf_setDirty hwf i virt
  | cow src dst =>
    exact (copy_outcome hwf (by simpa [admits] using hadmits) fun r hr =>
      UmPgTblMgmt.walkPgTblCOW_outcome hr).mono (fun _ h => h.1) fun _ _ => trivial
  | copyDirtyCOW src dst =>
    exact (copy_outcome hwf (by simpa [admits] using hadmits) fun r hr =>
      UmPgTblMgmt.walkPgTblCopyDirtyCOW_outcome hr).mono (fun _ h => h.1) fun _ _ => trivial

theorem Wf.of_step (hwf : s.Wf) {a : TableStep elf} (hstep : s.step a = some s') : s'.Wf := by
  obtain ⟨hadmits, hexec⟩ := step_eq_some.mp hstep
  exact (exec_outcome hwf hadmits).of_eq_ok hexec

/-- Every state reached is well formed. -/
theorem wf_of_run (boot : BootMem A elf) {steps : List (TableStep elf)}
    (hrun : run step (init boot) steps = some s) : s.Wf :=
  run_invariant' (fun _ _ _ hwf hstep => hwf.of_step hstep) (wf_init boot) hrun

/-! ## Three tables -/

/-- A memory with twenty free frames and a frame of an image. -/
def twentyFrames : BootMem (Allocator.freeList Pfn) {100} where
  h := { mem := fun f _ => f.setWidth 64
         pal := [1, 2, 3, 4, 5, 6, 7, 8, 9, 10, 11, 12, 13, 14, 15, 16, 17, 18, 19, 20]
         freeCalls := [] }
  used := by
    rintro f rfl
    decide

/-- Three pages are mapped: one that is written, one of the image that is read, and one that is read, in
a table of its own at each level. -/
def threePages : List (TableStep {100}) :=
  [.pageFault 0 slotStartVAddr (.alloc fun _ => 7) true true false,
    .pageFault 0 (slotStartVAddr + 0x1000) (.elf 100 rfl) false false false,
    .pageFault 0 (slotStartVAddr + 0x40203000) (.alloc fun _ => 0) false true true]

/-- The second table gets the dirty page of the first by reference, a dirty page of its own and one that
is not dirty; the third gets another page. -/
def threeTables : List (TableStep {100}) :=
  threePages ++ [.cow 0 1,
    .pageFault 1 (slotStartVAddr + 0x2000) (.alloc fun _ => 5) true true true,
    .pageFault 1 (slotStartVAddr + 0x3000) (.alloc fun _ => 0) false true true,
    .pageFault 2 (slotStartVAddr + 0x4000) (.alloc fun _ => 3) true true true]

end Tables

end Umm
