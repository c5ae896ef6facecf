import Umm.Memory.Steps

/-!
# Reclaiming the memory of an instance

What is allocated for an instance, by its page faults and when it is made, stays in its table as long
as the table stays with the instance.  Its destruction then frees all of it.
-/

namespace Umm

open Foundations Foundations.Layout

variable {A : Allocator Pfn} {elf : Set Pfn}

namespace Sys

variable {s s' t : Sys A elf} {c : UmiCore} {id j : SvId} {sv : Sv elf} {root' : Option Pfn}
  {a : MemStep elf} {f : Pfn} {S : Set Pfn}

/-! ## What is allocated for an instance -/

/-- What the step allocates is for `id`: it makes it, or is an access of its guest. -/
def AllocatesFor (s : Sys A elf) (id : SvId) : MemStep elf → Prop
  | .newInstance _ => id = s.nextId
  | .read c _ | .write c _ _ _ => s.activeUmi c = some id
  | _ => False

/-- The frames that the steps have allocated for `id`. -/
def allocatedFor (id : SvId) : Sys A elf → List (MemStep elf) → Set Pfn
  | _, [] => ∅
  | s, a :: as =>
    match s.step a with
    | none => ∅
    | some s' => {f | s.AllocatesFor id a ∧ s.h.IsFree f ∧ ¬ s'.h.IsFree f} ∪ allocatedFor id s' as

theorem allocatedFor_cons (hstep : s.step a = some s') (as : List (MemStep elf)) :
    allocatedFor id s (a :: as) =
      {f | s.AllocatesFor id a ∧ s.h.IsFree f ∧ ¬ s'.h.IsFree f} ∪ allocatedFor id s' as := by
  rw [allocatedFor, hstep]

/-- An unloaded instance keeps the table of the slot, or there is none. -/
def DropsNoTable (id : SvId) (s : Sys A elf) : MemStep elf → Prop
  | .unload c => s.activeUmi c = some id → ∀ sv, s.svs id = some sv →
      sv.root ≠ none ∨ s.getSlotPDPTRoot c = none
  | _ => True

/-! ## The steps -/

/-- What `id` has and what is allocated for it is in its table after the step. -/
structure Reclaimable (s : Sys A elf) (id : SvId) (a : MemStep elf) (s' : Sys A elf) : Prop where
  /-- The table keeps what it had. -/
  keep : s.svs id ≠ none → s'.svs id ≠ none →
    slotFrames s.h (s.table id) ⊆ slotFrames s'.h (s'.table id)
  /-- What is allocated joins it. -/
  take : s.AllocatesFor id a → ∀ f, s.h.IsFree f → ¬ s'.h.IsFree f →
    f ∈ slotFrames s'.h (s'.table id)

/-- An effect on something else. -/
theorem Effect.reclaimable_of_ne (heffect : s.Effect j root' s') (hwf : s.Wf) (hj : id ≠ j)
    (hnot : ¬ s.AllocatesFor id a) : s.Reclaimable id a s' where
  keep := fun _ _ => (heffect.slotFrames_eq hwf hj).symm.subset
  take := fun halloc => absurd halloc hnot

/-- An effect whose table claims what is allocated. -/
theorem Effect.reclaimable (heffect : s.Effect id root' s')
    (hclaims : SlotClaims s.h (s.table id) s'.h root') : s.Reclaimable id a s' where
  keep := fun _ _ => heffect.table_self ▸ hclaims.held_mono
  take := fun _ => heffect.table_self ▸ hclaims.taken

/-- The table that is unloaded is the one that the handler of the instance has. -/
theorem DropsNoTable.root_eq (hwf : s.Wf) (hdrops : s.DropsNoTable id (.unload c))
    (hactive : s.activeUmi c = some id) (hsv : s.svs id = some sv) (hl : sv.loadedOn = some c) :
    sv.root = s.getSlotPDPTRoot c := by
  rcases hdrops hactive sv hsv with hsome | hnone
  · obtain ⟨r, hr⟩ := Option.ne_none_iff_exists'.mp hsome
    rw [hr, hwf.root_of_loaded id sv c r hsv hl hr]
  · by_contra hne
    obtain ⟨r, hr⟩ := Option.ne_none_iff_exists'.mp fun hnil => hne (hnil.trans hnone.symm)
    rw [hwf.root_of_loaded id sv c r hsv hl hr] at hnone
    cases hnone

theorem Accessed.claims {vaddr : LinAddr} {wr : Bool} {e : SimplePte}
    (haccessed : s.Accessed c sv vaddr wr e s') :
    SlotClaims s.h (s.getSlotPDPTRoot c) s'.h (s'.getSlotPDPTRoot c) := by
  rcases haccessed.fault with rfl | ⟨ec, hfaulted, -, hover⟩
  · exact Claims.refl ..
  · exact hfaulted.claims hover

/-- A store allocates nothing. -/
theorem Stored.claims {vaddr : LinAddr} {e : SimplePte} {value mask : Word}
    (hstored : s.Stored c vaddr e value mask s') :
    SlotClaims s.h (s.getSlotPDPTRoot c) s'.h (s.getSlotPDPTRoot c) where
  held_mono := hstored.frames_eq.symm.subset
  taken := fun f hfree hused => absurd ((hstored.isFree f).mpr hfree) hused

theorem Stepped.reclaimable (hwf : s.Wf) (hdrops : s.DropsNoTable id a)
    (hstep : s.Stepped a s') : s.Reclaimable id a s' := by
  cases hstep with
  | createSV image =>
    by_cases hid : id = s.nextId
    · exact ⟨fun hsv => absurd (hwf.fresh id (Nat.le_of_eq hid.symm)) hsv, fun halloc => halloc.elim⟩
    · exact (effect_addSv (h := s.h) hwf.toSlots rfl
        (Builds.refl (by simp)).toEvolves).reclaimable_of_ne hwf hid not_false
  | @newInstance src sv root h hsrc hisSv hcopy =>
    have heffect := effect_addSv hwf.toSlots
      (show (sv.clone src root).loadedOn = none from rfl) hcopy.builds.toEvolves
    by_cases hid : id = s.nextId
    · subst hid
      refine heffect.reclaimable ?_
      rw [table_of_none (hwf.fresh _ (Nat.le_refl _))]
      exact hcopy.claims fun _ => rfl
    · exact heffect.reclaimable_of_ne hwf hid hid
  | @load c j sv s' hempty hsv hisInstance hl hloaded =>
    refine ⟨fun _ _ => ?_, fun halloc => halloc.elim⟩
    rw [hloaded.table_eq hwf.toSlots hempty hsv hl, hloaded.h]
  | @unload c j sv s' hactive hsv hl hunloaded =>
    have heffect := hunloaded.effect hwf hactive hsv hl
    by_cases hid : id = j
    · subst hid
      refine ⟨fun _ _ => ?_, fun halloc => halloc.elim⟩
      rw [heffect.table_self, hunloaded.h, table_of_loaded hsv hl,
        hdrops.root_eq hwf hactive hsv hl]
    · exact heffect.reclaimable_of_ne hwf hid not_false
  | @read c vaddr j sv e s₁ hactive hsv hl hvalid haccessed =>
    have heffect := haccessed.effect hwf hactive hsv hl
    have hreclaimable : s.Reclaimable id (.read c vaddr) s₁ := by
      by_cases hid : id = j
      · subst hid
        refine heffect.reclaimable ?_
        rw [table_of_loaded hsv hl]
        exact haccessed.claims
      · refine heffect.reclaimable_of_ne hwf hid fun halloc => hid ?_
        exact Option.some.inj (halloc.symm.trans hactive)
    exact ⟨hreclaimable.keep, hreclaimable.take⟩
  | @write c vaddr value mask j sv e s₁ s' hactive hsv hl hvalid haccessed hstored =>
    have heffect := write_effect hwf hactive hsv hl haccessed hstored
    by_cases hid : id = j
    · subst hid
      refine heffect.reclaimable ?_
      rw [table_of_loaded hsv hl]
      exact haccessed.claims.trans hstored.claims
    · refine heffect.reclaimable_of_ne hwf hid fun halloc => hid ?_
      exact Option.some.inj (halloc.symm.trans hactive)
  | @checkpoint c j sv root h hactive hsv hl hcopy =>
    by_cases hid : id = s.nextId
    · exact ⟨fun hsv => absurd (hwf.fresh id (Nat.le_of_eq hid.symm)) hsv, fun halloc => halloc.elim⟩
    · exact (effect_addSv hwf.toSlots rfl hcopy.builds.toEvolves).reclaimable_of_ne hwf hid not_false
  | @destroy j sv s' hsv hl hdestroyed =>
    refine ⟨fun _ hsv' => ?_, fun halloc => halloc.elim⟩
    have hid : id ≠ j := by
      rintro rfl
      exact hsv' hdestroyed.svs_self
    rw [hdestroyed.table_eq, Function.update_of_ne hid, slotFrames, slotFrames, held, held,
      hdestroyed.freed.mem]

/-! ## Runs -/

/-- The frames of `S` are in the table of `id`, if it exists; none have been allocated before it is
made. -/
structure Covers (s : Sys A elf) (id : SvId) (S : Set Pfn) : Prop where
  /-- The frames are in the table. -/
  subset : s.svs id ≠ none → S ⊆ slotFrames s.h (s.table id)
  /-- Before `id` is given out there are none. -/
  empty : s.nextId ≤ id → S = ∅

/-- Memory is allocated for what exists after the step. -/
theorem AllocatesFor.lt (hwf : s.Wf) (hstep : s.Stepped a s') (halloc : s.AllocatesFor id a) :
    id < s'.nextId := by
  have hactive : ∀ {c}, s.activeUmi c = some id → id < s'.nextId := by
    intro c hactive
    obtain ⟨sv, hsv, -⟩ := (hwf.activeUmi_iff c id).mp hactive
    by_contra hlt
    have hfresh := hwf.fresh id (Nat.le_trans hstep.exists_before.1 (Nat.le_of_not_lt hlt))
    rw [hsv] at hfresh
    cases hfresh
  cases hstep with
  | newInstance => exact halloc ▸ Nat.lt_succ_self s.nextId
  | read => exact hactive halloc
  | write => exact hactive halloc
  | createSV | load | unload | checkpoint | destroy => exact halloc.elim

theorem Covers.of_step (hcovers : s.Covers id S) (hwf : s.Wf) (hstep : s.Stepped a s')
    (hdrops : s.DropsNoTable id a) :
    s'.Covers id (S ∪ {f | s.AllocatesFor id a ∧ s.h.IsFree f ∧ ¬ s'.h.IsFree f}) := by
  obtain ⟨hnextId, hbefore⟩ := hstep.exists_before
  have hreclaimable := hstep.reclaimable hwf hdrops
  refine ⟨fun hsv' => ?_, fun hle => ?_⟩
  · rintro f (hf | ⟨halloc, hfree, hused⟩)
    · rcases hbefore id hsv' with hsv | hnew
      · exact hreclaimable.keep hsv hsv' (hcovers.subset hsv hf)
      · rw [hcovers.empty (Nat.le_of_eq hnew.symm)] at hf
        exact absurd hf (Set.notMem_empty f)
    · exact hreclaimable.take halloc f hfree hused
  · rw [hcovers.empty (Nat.le_trans hnextId hle), Set.empty_union]
    refine Set.eq_empty_of_forall_notMem fun f ⟨halloc, _⟩ => ?_
    exact absurd (halloc.lt hwf hstep) (Nat.not_lt.mpr hle)

theorem Covers.of_run {steps : List (MemStep elf)} (hcovers : s.Covers id S) (hwf : s.Wf)
    (hdrops : AllSteps step (DropsNoTable id) s steps) (hrun : Foundations.run step s steps = some t) :
    t.Wf ∧ t.Covers id (S ∪ allocatedFor id s steps) := by
  induction steps generalizing s S with
  | nil =>
    obtain rfl := Option.some.inj hrun
    rw [allocatedFor, Set.union_empty]
    exact ⟨hwf, hcovers⟩
  | cons a as ih =>
    obtain ⟨s', hs', hrun⟩ := run_cons_eq_some.mp hrun
    have hstep := step_stepped hwf hs'
    rw [allocatedFor_cons hs', ← Set.union_assoc]
    exact ih (hcovers.of_step hwf hstep hdrops.1) (hstep.wf hwf) (hdrops.2 s' hs') hrun

end Sys

end Umm
