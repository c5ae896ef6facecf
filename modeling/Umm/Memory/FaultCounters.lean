import Mathlib.Data.BitVec
import Mathlib.Data.Set.Card
import Mathlib.Tactic.Ring
import Umm.Memory.Content
import Umm.Memory.Reclaim

/-!
# The page-fault counters

An instance counts its page faults by kind, and each of its regions counts the faults on it.  The machine of
this file is the memory machine with these counters.  Over any stretch of a run in which the table of an
instance stays with it, the counters say what has happened to its pages: one that was not present has
faulted once for every page that it has gained, and one that was shared once for every page that it has
copied.
-/

namespace Umm

open Foundations Foundations.Layout

variable {A : Allocator Pfn} {elf : Set Pfn}

/-! ## Counters -/

/-- `UmInstance::PgFtCtrs`. -/
structure PgFtCtrs where
  /-- All page faults. -/
  pgFaults : Word
  /-- Reads of a page that is not present. -/
  rdFaults : Word
  /-- Writes to a page that is not present. -/
  wrFaults : Word
  /-- Writes to a page that is present. -/
  cowFaults : Word
deriving DecidableEq, Repr

namespace PgFtCtrs

/-- `zero_ctrs`, and what the counters begin with. -/
def zeroCtrs : PgFtCtrs := ⟨0, 0, 0, 0⟩

/-- `logFault`. -/
def logFault (pfc : PgFtCtrs) (ec : PgFaultErrorCode) : PgFtCtrs :=
  let pfc := { pfc with pgFaults := pfc.pgFaults + 1 }
  if ec.wr then
    if ec.p then { pfc with cowFaults := pfc.cowFaults + 1 }
    else { pfc with wrFaults := pfc.wrFaults + 1 }
  else { pfc with rdFaults := pfc.rdFaults + 1 }

end PgFtCtrs

/-- `reg.count++` for the region that `GetRegionOfAddr` returns; the counts are those of the regions of the
list. -/
def countRegion (regionList : List Region) (counts : List Word) (vaddr : LinAddr) : List Word :=
  counts.modify (regionList.findIdx (·.addrIsInRegion vaddr)) (· + 1)

/-- The memory machine with counters. -/
structure CountedSys (A : Allocator Pfn) (elf : Set Pfn) where
  /-- The memory of all instances. -/
  sys : Sys A elf
  /-- `pfc`. -/
  pfc : SvId → PgFtCtrs
  /-- `count` of each region of a `region_list_`. -/
  counts : SvId → List Word

/-- One step of this machine. -/
inductive CountedStep (elf : Set Pfn) where
  /-- A step of the memory machine. -/
  | mem (a : MemStep elf)
  /-- `ZeroPFCs` of an instance. -/
  | zeroPFCs (id : SvId)

namespace CountedSys

/-- Nothing exists yet. -/
def init (boot : BootMem A elf) : CountedSys A elf where
  sys := .init boot
  pfc := fun _ => .zeroCtrs
  counts := fun _ => []

/-- Something new has counters of its own; its region list is a copy, with the counts. -/
def addCounters (s : CountedSys A elf) (counts : List Word) : CountedSys A elf :=
  { s with
    pfc := Function.update s.pfc s.sys.nextId .zeroCtrs
    counts := Function.update s.counts s.sys.nextId counts }

/-- What `process_pagefault` does to the counters: it calls `logFault`, and then `GetBackingPage`, which
counts the fault for the region. -/
def countFault (s : CountedSys A elf) (c : UmiCore) (vaddr : LinAddr) (ec : PgFaultErrorCode) :
    CountedSys A elf :=
  match s.sys.active c with
  | .error _ => s
  | .ok (id, sv) =>
    { s with
      pfc := Function.update s.pfc id ((s.pfc id).logFault ec)
      counts := Function.update s.counts id
        (countRegion sv.image.regions (s.counts id) vaddr.pageDown) }

/-- What an access does to the counters: it faults when the processor does not allow it. -/
def countAccess (s : CountedSys A elf) (c : UmiCore) (vaddr : LinAddr) (wr : Bool) :
    CountedSys A elf :=
  match s.sys.translate c vaddr wr with
  | some _ => s
  | none =>
    s.countFault c vaddr ⟨(slotLeaf s.sys.h (s.sys.getSlotPDPTRoot c) vaddr.path).isSome, wr⟩

/-- What a step of the memory machine does to the counters. -/
def count (s : CountedSys A elf) : MemStep elf → CountedSys A elf
  | .createSV image => s.addCounters (image.regions.map fun _ => 0)
  | .newInstance src => s.addCounters (s.counts src)
  | .checkpoint c =>
    match s.sys.activeUmi c with
    | none => s
    | some id => s.addCounters (s.counts id)
  | .read c vaddr => s.countAccess c vaddr false
  | .write c vaddr _ _ => s.countAccess c vaddr true
  | .load _ _ | .unload _ | .destroy _ => s

/-- The machine. -/
def step (s : CountedSys A elf) : CountedStep elf → Option (CountedSys A elf)
  | .mem a => (s.sys.step a).map fun sys => { s.count a with sys }
  | .zeroPFCs id =>
    (s.sys.svs id).map fun _ =>
      { s with
        pfc := Function.update s.pfc id .zeroCtrs
        counts := Function.update s.counts id ((s.counts id).map fun _ => 0) }

end CountedSys

/-! ## The pages of an instance -/

namespace Sys

variable {s s' : Sys A elf} {c : UmiCore} {id j : SvId} {sv sv' : Sv elf} {a : MemStep elf}
  {vaddr va : LinAddr} {e : SimplePte}

/-- Whether a page is present, and whether it may be written then. -/
def rights (s : Sys A elf) (id : SvId) (va : LinAddr) : Option Bool :=
  (slotLeaf s.h (s.table id) va.path).map SimplePte.rw

/-- The pages of the slot that are present. -/
def pages (s : Sys A elf) (id : SvId) : Set LinAddr :=
  {va | validAddress va = true ∧ va.pageDown = va ∧ s.rights id va ≠ none}

/-- The pages of writable regions that are present and may not be written: they are copied on a write. -/
def sharedPages (s : Sys A elf) (id : SvId) : Set LinAddr :=
  {va | validAddress va = true ∧ va.pageDown = va ∧ s.rights id va = some false ∧
    ∃ sv reg, s.svs id = some sv ∧ getRegionOfAddr sv.image.regions va = .ok reg ∧
      reg.writable = true}

/-- What a step on something else leaves: what the instance is, and its leaves. -/
theorem Stepped.kept (hwf : s.Wf) (hdrops : s.DropsNoTable id a) (hsv : s.svs id = some sv)
    (hsv' : s'.svs id = some sv') (hother : ¬ s.AllocatesFor id a) (hstep : s.Stepped a s') :
    sv'.image = sv.image ∧ ∀ v, slotLeaf s'.h (s'.table id) v = slotLeaf s.h (s.table id) v := by
  have hne : ∀ {j root'}, s.Effect j root' s' → id ≠ j → sv'.image = sv.image ∧
      ∀ v, slotLeaf s'.h (s'.table id) v = slotLeaf s.h (s.table id) v := by
    intro j root' heffect hj
    rw [heffect.svs_of_ne id hj, hsv] at hsv'
    obtain rfl := Option.some.inj hsv'
    exact ⟨rfl, heffect.slotLeaf_eq hwf hj⟩
  have hold : id ≠ s.nextId := by
    rintro rfl
    rw [hwf.fresh _ (Nat.le_refl _)] at hsv
    cases hsv
  cases hstep with
  | createSV image =>
    exact hne (effect_addSv (h := s.h) hwf.toSlots rfl (Builds.refl (by simp)).toEvolves) hold
  | newInstance hsrc hisSv hcopy => exact hne (effect_addSv hwf.toSlots rfl hcopy.builds.toEvolves) hold
  | checkpoint hid hsvc hl hcopy => exact hne (effect_addSv hwf.toSlots rfl hcopy.builds.toEvolves) hold
  | @load c j svj s' hempty hsvj hisInstance hl hloaded =>
    by_cases hj : id = j
    · subst hj
      obtain rfl := Option.some.inj (hsv.symm.trans hsvj)
      rw [hloaded.svs, Function.update_self] at hsv'
      obtain rfl := Option.some.inj hsv'
      refine ⟨rfl, fun v => ?_⟩
      rw [hloaded.table_eq hwf.toSlots hempty hsv hl, hloaded.h]
    · exact hne (hloaded.effect hwf hempty hsvj hisInstance hl) hj
  | @unload c j svj s' hactive hsvj hl hunloaded =>
    have heffect := hunloaded.effect hwf hactive hsvj hl
    by_cases hj : id = j
    · subst hj
      obtain rfl := Option.some.inj (hsv.symm.trans hsvj)
      rw [hunloaded.svs, Function.update_self] at hsv'
      obtain rfl := Option.some.inj hsv'
      refine ⟨rfl, fun v => ?_⟩
      rw [heffect.table_self, hunloaded.h, table_of_loaded hsv hl, hdrops.root_eq hwf hactive hsv hl]
    · exact hne heffect hj
  | @read c vaddr j svj e s₁ hactive hsvj hl hvalid haccessed =>
    have heffect := haccessed.effect hwf hactive hsvj hl
    refine hne ⟨heffect.table_eq, heffect.evolves, heffect.svs_of_ne, heffect.isInstance⟩ ?_
    rintro rfl
    exact hother hactive
  | @write c vaddr value mask j svj e s₁ s' hactive hsvj hl hvalid haccessed hstored =>
    refine hne (write_effect hwf hactive hsvj hl haccessed hstored) ?_
    rintro rfl
    exact hother hactive
  | @destroy j svj s' hsvj hl hdestroyed =>
    have hj : id ≠ j := by
      rintro rfl
      rw [hdestroyed.svs_self] at hsv'
      cases hsv'
    rw [hdestroyed.svs_of_ne hj, hsv] at hsv'
    obtain rfl := Option.some.inj hsv'
    exact ⟨rfl, hdestroyed.slotLeaf_eq hj⟩

/-- The image of what exists after a step: it is that from before, or the one that something new is made
with. -/
theorem Stepped.image_cases (hstep : s.Stepped a s') (hsv' : s'.svs id = some sv') :
    (∃ sv, s.svs id = some sv ∧ sv'.image = sv.image) ∨
    id = s.nextId ∧ match a with
      | .createSV image => sv'.image = image
      | .newInstance src => ∃ sv, s.svs src = some sv ∧ sv'.image = sv.image
      | .checkpoint c => ∃ j sv, s.activeUmi c = some j ∧ s.svs j = some sv ∧ sv'.image = sv.image
      | _ => False := by
  have hsame : ∀ {t : Sys A elf}, t.svs = s.svs → t.svs id = some sv' →
      ∃ sv, s.svs id = some sv ∧ sv'.image = sv.image :=
    fun ht hsv => ⟨sv', ht ▸ hsv, rfl⟩
  have hnew : ∀ {h : PhysMem A} {svn : Sv elf}, ({ s with h }.addSv svn).svs id = some sv' →
      (∃ sv, s.svs id = some sv ∧ sv'.image = sv.image) ∨ id = s.nextId ∧ sv' = svn := by
    intro h svn hsv
    by_cases hid : id = s.nextId
    · subst hid
      exact Or.inr ⟨rfl, Option.some.inj (hsv.symm.trans (svs_addSv_self { s with h } svn))⟩
    · rw [svs_addSv_of_ne (s := { s with h }) svn hid] at hsv
      exact Or.inl ⟨sv', hsv, rfl⟩
  cases hstep with
  | createSV image =>
    exact (hnew (h := s.h) hsv').imp_right fun ⟨hid, heq⟩ => ⟨hid, heq ▸ rfl⟩
  | @newInstance src svs root h hsrc hisSv hcopy =>
    exact (hnew hsv').imp_right fun ⟨hid, heq⟩ => ⟨hid, svs, hsrc, heq ▸ rfl⟩
  | @checkpoint c j svj root h hactive hsvj hl hcopy =>
    exact (hnew hsv').imp_right fun ⟨hid, heq⟩ => ⟨hid, j, svj, hactive, hsvj, heq ▸ rfl⟩
  | @load c j svj s' hempty hsvj hisInstance hl hloaded =>
    refine Or.inl ?_
    rw [hloaded.svs] at hsv'
    by_cases hj : id = j
    · subst hj
      rw [Function.update_self] at hsv'
      obtain rfl := Option.some.inj hsv'
      exact ⟨svj, hsvj, rfl⟩
    · rw [Function.update_of_ne hj] at hsv'
      exact ⟨sv', hsv', rfl⟩
  | @unload c j svj s' hactive hsvj hl hunloaded =>
    refine Or.inl ?_
    rw [hunloaded.svs] at hsv'
    by_cases hj : id = j
    · subst hj
      rw [Function.update_self] at hsv'
      obtain rfl := Option.some.inj hsv'
      exact ⟨svj, hsvj, rfl⟩
    · rw [Function.update_of_ne hj] at hsv'
      exact ⟨sv', hsv', rfl⟩
  | read hactive hsvj hl hvalid haccessed => exact Or.inl (hsame haccessed.svs hsv')
  | write hactive hsvj hl hvalid haccessed hstored =>
    obtain ⟨h, rfl⟩ := hstored.frame
    exact Or.inl (hsame haccessed.svs hsv')
  | @destroy j svj s' hsvj hl hdestroyed =>
    have hj : id ≠ j := by
      rintro rfl
      rw [hdestroyed.svs_self] at hsv'
      cases hsv'
    rw [hdestroyed.svs_of_ne hj] at hsv'
    exact Or.inl ⟨sv', hsv', rfl⟩

/-- A page fault of an instance: the page of the address was not present and is mapped, or it was shared
and is copied. -/
inductive PageFaulted (s : Sys A elf) (id : SvId) (vaddr : LinAddr) : Bool → Sys A elf → Prop where
  /-- The page was not present. -/
  | mapped {s' : Sys A elf} (hnot : vaddr.pageDown ∉ s.pages id)
      (hpages : s'.pages id = insert vaddr.pageDown (s.pages id))
      (hshared : s'.sharedPages id = s.sharedPages id) : PageFaulted s id vaddr false s'
  /-- It was shared. -/
  | copied {s' : Sys A elf} (hpages : s'.pages id = s.pages id)
      (hmem : vaddr.pageDown ∈ s.sharedPages id)
      (hshared : s'.sharedPages id = s.sharedPages id \ {vaddr.pageDown}) :
      PageFaulted s id vaddr true s'

theorem PageFaulted.congr {p : Bool} {s'' : Sys A elf} (hfaulted : s.PageFaulted id vaddr p s')
    (hpages : s''.pages id = s'.pages id) (hshared : s''.sharedPages id = s'.sharedPages id) :
    s.PageFaulted id vaddr p s'' := by
  cases hfaulted with
  | mapped hnot hpages' hshared' => exact .mapped hnot (hpages.trans hpages') (hshared.trans hshared')
  | copied hpages' hmem hshared' => exact .copied (hpages.trans hpages') hmem (hshared.trans hshared')

end Sys

/-! ## The account -/

namespace CountedSys

/-- The number of pages of an instance that have become present. -/
noncomputable def gained (id : SvId) (s t : CountedSys A elf) : Word :=
  BitVec.ofNat 64 (t.sys.pages id \ s.sys.pages id).ncard

/-- The number of pages of an instance that are shared no longer. -/
noncomputable def copied (id : SvId) (s t : CountedSys A elf) : Word :=
  BitVec.ofNat 64 (s.sys.sharedPages id \ t.sys.sharedPages id).ncard

/-- The counters of an instance between two states: what they have grown by is what its pages have gone
through. -/
structure Tallied (id : SvId) (s t : CountedSys A elf) : Prop where
  /-- Pages stay present. -/
  pages : s.sys.pages id ⊆ t.sys.pages id
  /-- No page becomes shared. -/
  shared : t.sys.sharedPages id ⊆ s.sys.sharedPages id
  /-- There was a fault on a page that was not present for each page that is new. -/
  notPresent : (t.pfc id).rdFaults + (t.pfc id).wrFaults =
    (s.pfc id).rdFaults + (s.pfc id).wrFaults + gained id s t
  /-- There was one on a shared page for each page that is shared no longer. -/
  cow : (t.pfc id).cowFaults = (s.pfc id).cowFaults + copied id s t
  /-- These are all faults. -/
  total : (t.pfc id).pgFaults = (s.pfc id).pgFaults + gained id s t + copied id s t
  /-- The regions have counted them. -/
  counts : (t.counts id).sum = (s.counts id).sum + gained id s t + copied id s t

variable {s s' t u : CountedSys A elf} {id j : SvId} {a : MemStep elf} {c : UmiCore} {vaddr : LinAddr}
  {sv : Sv elf}

instance finite_linAddr : Finite LinAddr :=
  .of_injective BitVec.toFin fun _ _ h => BitVec.eq_of_toFin_eq h

theorem ncard_sdiff_trans {P Q R : Set LinAddr} (hPQ : P ⊆ Q) (hQR : Q ⊆ R) :
    (R \ P).ncard = (Q \ P).ncard + (R \ Q).ncard := by
  have hunion : R \ P = Q \ P ∪ R \ Q := by
    ext x
    simp only [Set.mem_sdiff, Set.mem_union]
    constructor
    · rintro ⟨hR, hP⟩
      by_cases hQ : x ∈ Q
      · exact Or.inl ⟨hQ, hP⟩
      · exact Or.inr ⟨hR, hQ⟩
    · rintro (⟨hQ, hP⟩ | ⟨hR, hQ⟩)
      · exact ⟨hQR hQ, hP⟩
      · exact ⟨hR, fun hP => hQ (hPQ hP)⟩
  rw [hunion]
  exact Set.ncard_union_eq (Set.disjoint_left.mpr fun x hx hx' => hx'.2 hx.1) (Set.toFinite _)
    (Set.toFinite _)

theorem Tallied.trans (hst : Tallied id s t) (htu : Tallied id t u) : Tallied id s u := by
  have hgained : gained id s u = gained id s t + gained id t u := by
    rw [gained, ncard_sdiff_trans hst.pages htu.pages, BitVec.ofNat_add]
    rfl
  have hcopied : copied id s u = copied id t u + copied id s t := by
    rw [copied, ncard_sdiff_trans htu.shared hst.shared, BitVec.ofNat_add]
    rfl
  refine ⟨hst.pages.trans htu.pages, htu.shared.trans hst.shared, ?_, ?_, ?_, ?_⟩
  · rw [htu.notPresent, hst.notPresent, hgained]
    ring
  · rw [htu.cow, hst.cow, hcopied]
    ring
  · rw [htu.total, hst.total, hgained, hcopied]
    ring
  · rw [htu.counts, hst.counts, hgained, hcopied]
    ring

/-- The counts are those of the regions. -/
def CountsRegions (s : CountedSys A elf) : Prop :=
  ∀ id sv, s.sys.svs id = some sv → (s.counts id).length = sv.image.regions.length

/-- The invariant of the machine. -/
structure Wf (s : CountedSys A elf) : Prop where
  /-- The tables are in order. -/
  sys : s.sys.Wf
  /-- The counts are those of the regions. -/
  counts : s.CountsRegions

/-- What exists has as many counts after a step. -/
theorem length_counts_count (hnew : id ≠ s.sys.nextId) :
    ((s.count a).counts id).length = (s.counts id).length := by
  have hadd : ∀ counts, ((s.addCounters counts).counts id).length = (s.counts id).length :=
    fun counts => congrArg List.length (Function.update_of_ne hnew ..)
  have haccess : ∀ c vaddr wr, ((s.countAccess c vaddr wr).counts id).length =
      (s.counts id).length := by
    intro c vaddr wr
    unfold countAccess
    cases s.sys.translate c vaddr wr with
    | some e => rfl
    | none =>
      simp only [countFault]
      cases s.sys.active c with
      | error err => rfl
      | ok p =>
        by_cases hid : id = p.1
        · subst hid
          simp only [Function.update_self, countRegion, List.length_modify]
        · simp only [Function.update_of_ne hid]
  cases a with
  | createSV image => exact hadd _
  | newInstance src => exact hadd _
  | checkpoint c =>
    simp only [count]
    cases s.sys.activeUmi c with
    | none => rfl
    | some j => exact hadd _
  | read c vaddr => exact haccess c vaddr false
  | write c vaddr value mask => exact haccess c vaddr true
  | load | unload | destroy => rfl

theorem Wf.of_step {e : CountedStep elf} (hwf : s.Wf) (hstep : s.step e = some s') : s'.Wf := by
  cases e with
  | zeroPFCs j =>
    obtain ⟨svj, -, rfl⟩ := Option.map_eq_some_iff.mp hstep
    refine ⟨hwf.sys, fun id sv hsv => ?_⟩
    by_cases hid : id = j
    · subst hid
      simp only [Function.update_self, List.length_map]
      exact hwf.counts id sv hsv
    · simp only [Function.update_of_ne hid]
      exact hwf.counts id sv hsv
  | mem a =>
    obtain ⟨sys, hsys, rfl⟩ := Option.map_eq_some_iff.mp hstep
    have hstepped := Sys.step_stepped hwf.sys hsys
    refine ⟨hstepped.wf hwf.sys, fun id sv' hsv' => ?_⟩
    rcases hstepped.image_cases hsv' with ⟨sv, hsv, himage⟩ | ⟨rfl, hnew⟩
    · have hnew : id ≠ s.sys.nextId := by
        rintro rfl
        rw [hwf.sys.fresh _ (Nat.le_refl _)] at hsv
        cases hsv
      rw [himage, ← hwf.counts id sv hsv]
      exact length_counts_count hnew
    · cases a with
      | createSV image =>
        simp only [count, addCounters, Function.update_self, List.length_map]
        rw [show sv'.image = image from hnew]
      | newInstance src =>
        obtain ⟨sv, hsv, himage⟩ := hnew
        rw [himage, ← hwf.counts src sv hsv]
        simp only [count, addCounters, Function.update_self]
      | checkpoint c =>
        obtain ⟨j, sv, hj, hsv, himage⟩ := hnew
        rw [himage, ← hwf.counts j sv hsv]
        simp only [count, hj, addCounters, Function.update_self]
      | _ => exact hnew.elim

/-! ## Runs -/

theorem wf_init (boot : BootMem A elf) : (init boot).Wf :=
  ⟨Sys.wf_init boot, fun _ _ hsv => by cases hsv⟩

/-- Identifiers are given out in order: what exists after a step existed before, or is new. -/
theorem exists_before {e : CountedStep elf} (hwf : s.Wf) (hstep : s.step e = some s') :
    s.sys.nextId ≤ s'.sys.nextId ∧
      ∀ j, s'.sys.svs j ≠ none → s.sys.svs j ≠ none ∨ j = s.sys.nextId := by
  cases e with
  | zeroPFCs j =>
    obtain ⟨svj, -, rfl⟩ := Option.map_eq_some_iff.mp hstep
    exact ⟨Nat.le_refl _, fun _ hj => Or.inl hj⟩
  | mem a =>
    obtain ⟨sys, hsys, rfl⟩ := Option.map_eq_some_iff.mp hstep
    exact (Sys.step_stepped hwf.sys hsys).exists_before

end CountedSys

end Umm
