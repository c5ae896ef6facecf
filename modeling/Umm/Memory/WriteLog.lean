import Umm.Memory.Content

/-!
# Who has written a page

The machine of this file is the memory machine with a log of the pages that are written: by an instance
itself, or before, by the instance that its table was copied from.  A leaf is dirty only if its page is
in the log of the table's owner; a page that is not in the log still holds what it held first.
-/

namespace Umm

open Foundations Foundations.Layout

variable {A : Allocator Pfn} {elf : Set Pfn}

namespace Sys

variable {s s' : Sys A elf} {c : UmiCore} {id : SvId} {sv : Sv elf} {vaddr : LinAddr}
  {root' : Option Pfn} {written written' : SvId → List LinAddr}

/-- The log after a step: a write adds its page, and what is new begins with the log of what it is made
from. -/
def logWrites (s : Sys A elf) (written : SvId → List LinAddr) : MemStep elf → SvId → List LinAddr
  | .createSV _ => Function.update written s.nextId []
  | .newInstance src => Function.update written s.nextId (written src)
  | .checkpoint c =>
    match s.activeUmi c with
    | none => written
    | some id => Function.update written s.nextId (written id)
  | .write c vaddr _ _ =>
    match s.activeUmi c with
    | none => written
    | some id => Function.update written id (vaddr.pageDown :: written id)
  | .load _ _ | .unload _ | .read _ _ | .destroy _ => written

/-- The pages with dirty leaves are in the log. -/
def Logged (s : Sys A elf) (written : SvId → List LinAddr) : Prop :=
  ∀ id va e, validAddress va = true → slotLeaf s.h (s.table id) va.path = some e → e.dirty = true →
    va.pageDown ∈ written id

/-! ## Steps -/

/-- An effect keeps the log complete when it is for the table that the effect is on. -/
theorem Effect.logged (heffect : s.Effect id root' s') (hwf : s.Wf) (hlogged : s.Logged written)
    (hothers : ∀ j ≠ id, written' j = written j)
    (hself : ∀ va e, validAddress va = true → slotLeaf s'.h root' va.path = some e → e.dirty = true →
      va.pageDown ∈ written' id) : s'.Logged written' := by
  intro j va e hva hleaf hdirty
  by_cases hj : j = id
  · subst hj
    rw [heffect.table_self] at hleaf
    exact hself va e hva hleaf hdirty
  · rw [heffect.slotLeaf_eq hwf hj] at hleaf
    rw [hothers j hj]
    exact hlogged j va e hva hleaf hdirty

/-- A copy has dirty leaves only where its source has. -/
theorem logged_of_copy {deep : SimplePte → Bool} {h : PhysMem A} {sv' : Sv elf} (hwf : s.Wf)
    (hlogged : s.Logged written) (hcopy : CopyMade deep s.h (s.table id) h sv'.root)
    (hl : sv'.loadedOn = none) :
    ({ s with h }.addSv sv').Logged (Function.update written s.nextId (written id)) := by
  refine (effect_addSv hwf.toSlots hl hcopy.builds.toEvolves).logged hwf hlogged
    (fun j hj => Function.update_of_ne hj ..) fun va _ hva hleaf _ => ?_
  obtain ⟨e, hsource, hdirty, -⟩ := hcopy.leaf hleaf
  rw [Function.update_self]
  exact hlogged id va e hva hsource hdirty

/-- An access keeps the leaves of the other pages. -/
theorem Accessed.kept {wr : Bool} {e : SimplePte} (haccessed : s.Accessed c sv vaddr wr e s')
    {w : ℕ → Key} (hw : ¬ SamePage w vaddr.path) :
    slotLeaf s'.h (s'.getSlotPDPTRoot c) w = slotLeaf s.h (s.getSlotPDPTRoot c) w := by
  rcases haccessed.fault with rfl | ⟨ec, hfaulted, -⟩
  · rfl
  · exact hfaulted.kept w hw

/-- A read makes no leaf dirty. -/
theorem Accessed.logged {e : SimplePte} (hwf : s.Wf) (hlogged : s.Logged written)
    (hid : s.activeUmi c = some id) (hsv : s.svs id = some sv) (hl : sv.loadedOn = some c)
    (haccessed : s.Accessed c sv vaddr false e s') : s'.Logged written := by
  refine (haccessed.effect hwf hid hsv hl).logged hwf hlogged (fun _ _ => rfl)
    fun va e' hva hleaf hdirty => hlogged id va e' hva ?_ hdirty
  rw [table_of_loaded hsv hl]
  by_cases hsame : SamePage va.path vaddr.path
  · rw [slotLeaf_of_samePage hsame] at hleaf ⊢
    obtain rfl := Option.some.inj (haccessed.leaf.symm.trans hleaf)
    exact haccessed.old rfl hdirty
  · exact (haccessed.kept hsame).symm.trans hleaf

/-- A write makes the leaf of its page dirty, and no other. -/
theorem Stored.logged {s₁ : Sys A elf} {value mask : Word} {e : SimplePte} (hwf : s.Wf)
    (hlogged : s.Logged written) (hid : s.activeUmi c = some id) (hsv : s.svs id = some sv)
    (hl : sv.loadedOn = some c) (hvalid : validAddress vaddr = true)
    (haccessed : s.Accessed c sv vaddr true e s₁) (hstored : s₁.Stored c vaddr e value mask s') :
    s'.Logged (Function.update written id (vaddr.pageDown :: written id)) := by
  refine (write_effect hwf hid hsv hl haccessed hstored).logged hwf hlogged
    (fun j hj => Function.update_of_ne hj ..) fun va e' hva hleaf hdirty => ?_
  rw [Function.update_self]
  by_cases hsame : SamePage va.path vaddr.path
  · rw [(samePage_iff_pageDown hva hvalid).mp hsame]
    exact List.mem_cons_self
  · rw [hstored.kept va.path hsame, haccessed.kept hsame, ← table_of_loaded hsv hl] at hleaf
    exact List.mem_cons_of_mem _ (hlogged id va e' hva hleaf hdirty)

/-- Every step keeps the log complete. -/
theorem Stepped.logged (hwf : s.Wf) (hlogged : s.Logged written) {a : MemStep elf}
    (hstep : s.Stepped a s') : s'.Logged (s.logWrites written a) := by
  cases hstep with
  | createSV image =>
    refine (effect_addSv (h := s.h) hwf.toSlots rfl (Builds.refl (by simp)).toEvolves).logged hwf
      hlogged (fun j hj => Function.update_of_ne hj ..) fun _ _ _ hleaf _ => ?_
    cases hleaf
  | newInstance hsrc hisSv hcopy => exact logged_of_copy hwf hlogged hcopy rfl
  | @load c id sv s' hempty hsv hisInstance hl hloaded =>
    refine (hloaded.effect hwf hempty hsv hisInstance hl).logged hwf hlogged (fun _ _ => rfl)
      fun va e hva hleaf hdirty => ?_
    rw [hloaded.h] at hleaf
    exact hlogged id va e hva hleaf hdirty
  | @unload c id sv s' hid hsv hl hunloaded =>
    refine (hunloaded.effect hwf hid hsv hl).logged hwf hlogged (fun _ _ => rfl)
      fun va e hva hleaf hdirty => ?_
    rw [hunloaded.h] at hleaf
    exact hlogged id va e hva (hwf.slotLeaf_of_root hsv hl hleaf) hdirty
  | read hid hsv hl hvalid haccessed =>
    have hlogged₁ := haccessed.logged hwf hlogged hid hsv hl
    exact hlogged₁
  | write hid hsv hl hvalid haccessed hstored =>
    simp only [logWrites, hid]
    exact hstored.logged hwf hlogged hid hsv hl hvalid haccessed
  | checkpoint hid hsv hl hcopy =>
    simp only [logWrites, hid]
    exact logged_of_copy hwf hlogged hcopy rfl
  | @destroy id sv s' hsv hl hdestroyed =>
    intro j va e hva hleaf hdirty
    by_cases hj : j = id
    · subst hj
      rw [table_of_none hdestroyed.svs_self] at hleaf
      cases hleaf
    · rw [hdestroyed.slotLeaf_eq hj] at hleaf
      exact hlogged j va e hva hleaf hdirty

end Sys

/-! ## The machine -/

/-- The memory machine with a log of the writes. -/
structure WrittenSys (A : Allocator Pfn) (elf : Set Pfn) where
  /-- The memory of all instances. -/
  sys : Sys A elf
  /-- Log: the pages that have been written, by each and before by what it was made from. -/
  written : SvId → List LinAddr

namespace WrittenSys

variable {t t' : WrittenSys A elf} {a : MemStep elf}

/-- Nothing exists yet. -/
def init (boot : BootMem A elf) : WrittenSys A elf where
  sys := .init boot
  written := fun _ => []

/-- The machine. -/
def step (t : WrittenSys A elf) (a : MemStep elf) : Option (WrittenSys A elf) :=
  (t.sys.step a).map fun sys => { sys, written := t.sys.logWrites t.written a }

/-- A step of the machine is one of the memory machine. -/
theorem step_eq_some : t.step a = some t' ↔
    t.sys.step a = some t'.sys ∧ t'.written = t.sys.logWrites t.written a := by
  obtain ⟨sys', written'⟩ := t'
  simp only [step, Option.map_eq_some_iff, mk.injEq]
  constructor
  · rintro ⟨sys, hsys, rfl, rfl⟩
    exact ⟨hsys, rfl⟩
  · rintro ⟨hsys, rfl⟩
    exact ⟨sys', hsys, rfl, rfl⟩

/-- The same state, with the listed frames tabulated. -/
def tabulated (frames : List Pfn) (t : WrittenSys A elf) : WrittenSys A elf :=
  { t with sys := t.sys.tabulated frames }

/-- A tabulated state is the state. -/
theorem tabulated_eq (frames : List Pfn) (t : WrittenSys A elf) : t.tabulated frames = t := by
  rw [tabulated, Sys.tabulated_eq]

/-- No leaf is dirty yet. -/
theorem logged_init (boot : BootMem A elf) : (init boot).sys.Logged (init boot).written :=
  fun _ _ _ _ hleaf _ => by cases hleaf

/-- Every step keeps the log complete. -/
theorem logged_step (hwf : t.sys.Wf) (hlogged : t.sys.Logged t.written) (hstep : t.step a = some t') :
    t'.sys.Logged t'.written := by
  obtain ⟨hsys, hwritten⟩ := step_eq_some.mp hstep
  rw [hwritten]
  exact (Sys.step_stepped hwf hsys).logged hwf hlogged

end WrittenSys

end Umm
