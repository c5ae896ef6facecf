import Umm.Memory.Steps

/-!
# Swapping instances

The table of an instance is in two places: the slot of its core, where page faults build it, and its
page-table handler, from which it is loaded.  An instance that came with a table finds it again when
it is loaded again.  One that had none when it was made leaves the table that its faults built in a
slot that is then cleared.
-/

namespace Umm

open Foundations Foundations.Layout

variable {A : Allocator Pfn} {elf : Set Pfn}

namespace Sys

variable {s s' : Sys A elf} {c : UmiCore} {id : SvId} {sv : Sv elf} {root' : Option Pfn}

/-- The handler of an instance that is in no slot has the table that was in the slot when it was
unloaded, if it has one, and the table is as it was. -/
def Kept (s : Sys A elf) (sv : Sv elf) : Prop :=
  ∀ log, sv.loadedOn = none → sv.unloaded = some log →
    (sv.root ≠ none → sv.root = log.root) ∧
      (sv.root = log.root → ∀ v, slotLeaf s.h sv.root v = log.leaf v)

/-- All instances keep their tables while they are in no slot. -/
def AllKept (s : Sys A elf) : Prop :=
  ∀ id sv, s.svs id = some sv → s.Kept sv

theorem Effect.allKept (heffect : s.Effect id root' s') (hwf : s.Wf) (hkept : s.AllKept)
    (hself : ∀ sv, s'.svs id = some sv → s'.Kept sv) : s'.AllKept := by
  intro j svj hsvj
  by_cases hj : j = id
  · exact hself svj (hj ▸ hsvj)
  · rw [heffect.svs_of_ne j hj] at hsvj
    intro log hl hlog
    obtain ⟨hroot, hleaf⟩ := hkept j svj hsvj log hl hlog
    refine ⟨hroot, fun heq v => ?_⟩
    rw [← hleaf heq v, ← table_of_unloaded hsvj hl, ← heffect.slotLeaf_eq hwf hj,
      heffect.table_of_ne hj]

/-- What is in a slot, or has not been unloaded, has nothing to keep. -/
theorem kept_of_loaded (hl : sv.loadedOn ≠ none) : s.Kept sv :=
  fun _ hl' => absurd hl' hl

theorem kept_of_new (hnew : sv.unloaded = none) : s.Kept sv := by
  intro log _ hlog
  rw [hnew] at hlog
  cases hlog

/-- An effect on the table of a loaded instance. -/
theorem Effect.allKept_of_loaded (heffect : s.Effect id root' s') (hwf : s.Wf)
    (hkept : s.AllKept) (hsvs : s'.svs = s.svs) (hsv : s.svs id = some sv)
    (hl : sv.loadedOn = some c) : s'.AllKept := by
  refine heffect.allKept hwf hkept fun sv' hsv' => kept_of_loaded ?_
  rw [hsvs] at hsv'
  obtain rfl := Option.some.inj (hsv.symm.trans hsv')
  rw [hl]
  exact Option.some_ne_none c

theorem Stepped.allKept (hwf : s.Wf) (hkept : s.AllKept) {a : MemStep elf}
    (hstep : s.Stepped a s') : s'.AllKept := by
  cases hstep with
  | createSV image =>
    refine (effect_addSv (h := s.h) hwf.toSlots rfl (Builds.refl (by simp)).toEvolves).allKept hwf
      hkept fun sv hsv => kept_of_new ?_
    obtain rfl := Option.some.inj ((svs_addSv_self ..).symm.trans hsv)
    rfl
  | newInstance hsrc hisSv hcopy =>
    refine (effect_addSv hwf.toSlots rfl hcopy.builds.toEvolves).allKept hwf hkept
      fun sv hsv => kept_of_new ?_
    obtain rfl := Option.some.inj ((svs_addSv_self ..).symm.trans hsv)
    rfl
  | @load c id sv s' hempty hsv hisInstance hl hloaded =>
    refine (hloaded.effect hwf hempty hsv hisInstance hl).allKept hwf hkept
      fun sv' hsv' => kept_of_loaded ?_
    rw [hloaded.svs, Function.update_self] at hsv'
    obtain rfl := Option.some.inj hsv'
    exact Option.some_ne_none c
  | @unload c id sv s' hid hsv hl hunloaded =>
    refine (hunloaded.effect hwf hid hsv hl).allKept hwf hkept fun sv' hsv' log _ hlog => ?_
    rw [hunloaded.svs, Function.update_self] at hsv'
    obtain rfl := Option.some.inj hsv'
    obtain rfl := Option.some.inj hlog
    refine ⟨fun hroot => ?_, fun hroot v => ?_⟩
    · obtain ⟨r, hr⟩ := Option.ne_none_iff_exists'.mp hroot
      exact hr.trans (hwf.root_of_loaded id sv c r hsv hl hr).symm
    · rw [hunloaded.h]
      exact congrArg (slotLeaf s.h · v) hroot
  | read hid hsv hl hvalid haccessed =>
    have hkept₁ :=
      (haccessed.effect hwf hid hsv hl).allKept_of_loaded hwf hkept haccessed.svs hsv hl
    exact hkept₁
  | write hid hsv hl hvalid haccessed hstored =>
    have heffect := write_effect hwf hid hsv hl haccessed hstored
    refine heffect.allKept_of_loaded hwf hkept ?_ hsv hl
    obtain ⟨h, rfl⟩ := hstored.frame
    exact haccessed.svs
  | checkpoint hid hsv hl hcopy =>
    refine (effect_addSv hwf.toSlots rfl hcopy.builds.toEvolves).allKept hwf hkept
      fun sv hsv => kept_of_new ?_
    obtain rfl := Option.some.inj ((svs_addSv_self ..).symm.trans hsv)
    rfl
  | @destroy id sv s' hsv hl hdestroyed =>
    intro j svj hsvj log hlj hlog
    have hj : j ≠ id := by
      rintro rfl
      rw [hdestroyed.svs_self] at hsvj
      cases hsvj
    rw [hdestroyed.svs_of_ne hj] at hsvj
    obtain ⟨hroot, hleaf⟩ := hkept j svj hsvj log hlj hlog
    refine ⟨hroot, fun heq v => ?_⟩
    rw [← hleaf heq v]
    exact slotLeaf_congr (fun f _ => congrFun hdestroyed.freed.mem f) v

/-! ## Loading again -/

/-- An instance that is loaded again has the table in its handler, or had none in the slot. -/
def CameWithTable (s : Sys A elf) : MemStep elf → Prop
  | .load c id => s.admits (.load c id) = true → ∀ sv log, s.svs id = some sv →
      sv.unloaded = some log → sv.root ≠ none ∨ log.root = none
  | _ => True

/-- An instance that is loaded again finds the table that was in the slot when it was unloaded, with
the same translations. -/
def KeepsTable (s : Sys A elf) : MemStep elf → Prop
  | .load c id => ∀ s', s.step (.load c id) = some s' → ∀ sv log, s.svs id = some sv →
      sv.unloaded = some log → s'.getSlotPDPTRoot c = log.root ∧
        ∀ v, slotLeaf s'.h (s'.getSlotPDPTRoot c) v = log.leaf v
  | _ => True

/-- Loading an instance again finds its table exactly when the instance came with one, or had none
yet. -/
theorem keepsTable_iff (hwf : s.Wf) (hkept : s.AllKept) (a : MemStep elf) :
    s.KeepsTable a ↔ s.CameWithTable a := by
  cases a with
  | load c id =>
    refine ⟨fun hkeeps hadmits sv log hsv hlog => ?_, fun hcame s' hstep sv log hsv hlog => ?_⟩
    · by_contra hnot
      push Not at hnot
      simp only [admits, Bool.and_eq_true, Option.isNone_iff_eq_none] at hadmits
      have hloaded := slotLoadInstance_loaded hwf.toSlots hadmits.1 hsv
      cases hexec : s.slotLoadInstance c id with
      | error e =>
        rw [hexec] at hloaded
        exact hloaded
      | ok s' =>
        rw [hexec] at hloaded
        have hstep : s.step (.load c id) = some s' :=
          step_eq_some.mpr ⟨by simp [admits, hadmits], hexec⟩
        have hslot := (hkeeps s' hstep sv log hsv hlog).1
        rw [hloaded.slot, hnot.1] at hslot
        exact hnot.2 hslot.symm
    · cases step_stepped hwf hstep with
      | load hempty hsv' hisInstance hl hloaded =>
        obtain rfl := Option.some.inj (hsv.symm.trans hsv')
        obtain ⟨hroot, hleaf⟩ := hkept id sv hsv log hl hlog
        have heq : sv.root = log.root := by
          rcases hcame (step_eq_some.mp hstep).1 sv log hsv hlog with hsome | hnone
          · exact hroot hsome
          · by_cases hsome : sv.root = none
            · rw [hsome, hnone]
            · exact hroot hsome
        rw [hloaded.slot, hloaded.h]
        exact ⟨heq, hleaf heq⟩
  | _ => exact Iff.rfl

/-- Swapping an instance keeps its address space exactly in the runs that load no instance again whose
handler never had the table that its faults built. -/
theorem keepsTable_run (boot : BootMem A elf) (steps : List (MemStep elf)) :
    AllSteps step KeepsTable (init boot) steps ↔
      AllSteps step CameWithTable (init boot) steps := by
  have hstep : ∀ (s : Sys A elf) a s', s.Wf ∧ s.AllKept → s.step a = some s' →
      s'.Wf ∧ s'.AllKept := by
    intro s a s' hs hstep
    have hstepped := step_stepped hs.1 hstep
    exact ⟨hstepped.wf hs.1, hstepped.allKept hs.1 hs.2⟩
  have hinit : (init boot).Wf ∧ (init boot).AllKept :=
    ⟨wf_init boot, fun _ _ hsv => by cases hsv⟩
  refine ⟨fun h => ?_, fun h => ?_⟩
  · exact allSteps_of_invariant (fun s a hkeeps hs => (keepsTable_iff hs.1 hs.2 a).mp hkeeps)
      (fun s a s' _ => hstep s a s') hinit h
  · exact allSteps_of_invariant (fun s a hcame hs => (keepsTable_iff hs.1 hs.2 a).mpr hcame)
      (fun s a s' _ => hstep s a s') hinit h

/-- An instance of an ELF image that has written to its page and is unloaded does not find the page
when it is loaded again. -/
theorem not_keepsTable_elf :
    ¬ AllSteps step KeepsTable (init smallBoot) (writeAndUnload ++ [.load 0 1]) := by
  intro hkeeps
  have hrun : ((Foundations.run step (init smallBoot) writeAndUnload).bind fun s =>
      (s.step (.load 0 1)).bind fun s' => (s.svs 1).bind fun sv =>
        sv.unloaded.map fun log => (s'.getSlotPDPTRoot 0, log.root)) = some (none, some 2) := by
    decide
  simp only [Option.bind_eq_some_iff, Option.map_eq_some_iff] at hrun
  obtain ⟨s, hs, s', hs', sv, hsv, log, hlog, heq⟩ := hrun
  obtain ⟨hslot, hroot⟩ := Prod.mk.inj heq
  have hkept := ((hkeeps.of_append hs).1 s' hs' sv log hsv hlog).1
  rw [hslot, hroot] at hkept
  cases hkept

end Sys

end Umm
