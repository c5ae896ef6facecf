import Umm.Memory.Steps

/-!
# Who may free a frame

A table has the frames that its leaves can write; a read-only leaf maps a page of the ELF image, or a
frame of a state vector that the table was copied from.  While those are destroyed after the tables
copied from them, freeing the frames of a table takes nothing from anybody else.
-/

namespace Umm

open Foundations Foundations.Layout

variable {A : Allocator Pfn} {elf : Set Pfn}

/-- Every leaf of a copy is the copy of a dirty leaf. -/
theorem CopyMade.leaf {deep : SimplePte → Bool} {h₀ h : PhysMem A} {src copy : Option Pfn}
    (hcopy : CopyMade deep h₀ src h copy) {w : ℕ → Key} {e' : SimplePte}
    (he' : slotLeaf h copy w = some e') :
    ∃ e, slotLeaf h₀ src w = some e ∧ e.dirty = true ∧ CopyOf deep h₀ h copy e e' := by
  by_cases hclean : ∀ e, slotLeaf h₀ src w = some e → e.dirty = false
  · rw [hcopy.absent w hclean] at he'
    cases he'
  · push Not at hclean
    obtain ⟨e, he, hdirty⟩ := hclean
    have hdirty : e.dirty = true := by simpa using hdirty
    obtain ⟨e'', he'', hcopyOf⟩ := hcopy.copied w e he hdirty
    obtain rfl := Option.some.inj (he'.symm.trans he'')
    exact ⟨e, he, hdirty, hcopyOf⟩

/-- A copy with a leaf has a table. -/
theorem isSome_of_slotLeaf {h : PhysMem A} {root : Option Pfn} {w : ℕ → Key} {e : SimplePte}
    (hleaf : slotLeaf h root w = some e) : root.isSome = true := by
  cases root with
  | none => cases hleaf
  | some r => rfl

namespace Sys

variable {s s' : Sys A elf} {c : UmiCore} {id a : SvId} {sv : Sv elf} {root' : Option Pfn} {f : Pfn}

/-! ## The invariant -/

/-- The state vector `a` can write the frame. -/
def Owns (s : Sys A elf) (a : SvId) (f : Pfn) : Prop :=
  ∃ sv, s.svs a = some sv ∧ sv.isInstance = false ∧
    ∃ w e, slotLeaf s.h (s.table a) w = some e ∧ e.rw = true ∧ e.frame = f

/-- What a read-only leaf of something that was copied from `copiedFrom` may map: a page of the ELF
image, which is clean, or a dirty page of a state vector that still exists. -/
def Borrows (s : Sys A elf) (copiedFrom : List SvId) (e : SimplePte) : Prop :=
  e.frame ∈ elf ∧ e.dirty = false ∨ e.dirty = true ∧ ∃ a ∈ copiedFrom, s.Owns a e.frame

/-- Every read-only leaf maps a page of the ELF image, or borrows one. -/
def Shared (s : Sys A elf) : Prop :=
  ∀ id sv v e, s.svs id = some sv → slotLeaf s.h (s.table id) v = some e → e.rw = false →
    s.Borrows sv.copiedFrom e

theorem Borrows.mono {l l' : List SvId} {e : SimplePte} (hborrows : s.Borrows l e)
    (howns : ∀ a ∈ l, s.Owns a e.frame → s'.Owns a e.frame) (hl : ∀ a ∈ l, a ∈ l') :
    s'.Borrows l' e := by
  rcases hborrows with helf | ⟨hdirty, a, ha, hown⟩
  · exact Or.inl helf
  · exact Or.inr ⟨hdirty, a, hl a ha, howns a ha hown⟩

/-- State vectors keep their frames. -/
theorem Effect.owns (heffect : s.Effect id root' s') (hwf : s.Wf) (howns : s.Owns a f) :
    s'.Owns a f := by
  obtain ⟨sv, hsv, hisSv, w, e, hleaf, hrw, hframe⟩ := howns
  have ha : a ≠ id := by
    rintro rfl
    rw [heffect.isInstance sv hsv] at hisSv
    cases hisSv
  exact ⟨sv, (heffect.svs_of_ne a ha).trans hsv, hisSv, w, e,
    (heffect.slotLeaf_eq hwf ha w).trans hleaf, hrw, hframe⟩

/-- An effect keeps the invariant when the table that it is on does. -/
theorem Effect.shared (heffect : s.Effect id root' s') (hwf : s.Wf) (hshared : s.Shared)
    (hself : ∀ sv v e, s'.svs id = some sv → slotLeaf s'.h root' v = some e → e.rw = false →
      s.Borrows sv.copiedFrom e) : s'.Shared := by
  intro j svj v e hsvj hleaf hrw
  have howns : ∀ a ∈ svj.copiedFrom, s.Owns a e.frame → s'.Owns a e.frame :=
    fun a _ => heffect.owns hwf
  by_cases hj : j = id
  · subst hj
    rw [heffect.table_self] at hleaf
    exact (hself svj v e hsvj hleaf hrw).mono howns fun _ ha => ha
  · rw [heffect.svs_of_ne j hj] at hsvj
    rw [heffect.slotLeaf_eq hwf hj] at hleaf
    exact (hshared j svj v e hsvj hleaf hrw).mono howns fun _ ha => ha

theorem Faulted.shared {vaddr : LinAddr} {ec : PgFaultErrorCode} (hwf : s.Wf) (hshared : s.Shared)
    (hid : s.activeUmi c = some id) (hsv : s.svs id = some sv) (hl : sv.loadedOn = some c)
    (hfaulted : s.Faulted c sv vaddr ec s') : s'.Shared := by
  refine (hfaulted.effect hwf hid hsv hl).shared hwf hshared fun sv' v e hsv' hleaf hrw => ?_
  obtain rfl := Option.some.inj ((hfaulted.svs ▸ hsv' : s.svs id = some sv').symm.trans hsv)
  by_cases hv : SamePage v vaddr.path
  · obtain ⟨e₀, hentered, hdirty, helf, -⟩ := hfaulted.entered
    obtain rfl := Option.some.inj ((hentered v hv).symm.trans hleaf)
    obtain ⟨helf, hwr⟩ := helf hrw
    exact Or.inl ⟨helf, hdirty.trans hwr⟩
  · rw [hfaulted.kept v hv, ← table_of_loaded hsv hl] at hleaf
    exact hshared id sv' v e hsv hleaf hrw

theorem Accessed.shared {vaddr : LinAddr} {wr : Bool} {e : SimplePte} (hwf : s.Wf)
    (hshared : s.Shared) (hid : s.activeUmi c = some id) (hsv : s.svs id = some sv)
    (hl : sv.loadedOn = some c) (haccessed : s.Accessed c sv vaddr wr e s') : s'.Shared := by
  rcases haccessed.fault with rfl | ⟨ec, hfaulted, -, -⟩
  · exact hshared
  · exact hfaulted.shared hwf hshared hid hsv hl

theorem Stored.shared {vaddr : LinAddr} {e : SimplePte} {value mask : Word} (hwf : s.Wf)
    (hshared : s.Shared) (hsv : s.svs id = some sv) (hl : sv.loadedOn = some c)
    (hrw : e.rw = true) (hstored : s.Stored c vaddr e value mask s') : s'.Shared := by
  refine (hstored.effect hwf hsv hl).shared hwf hshared fun sv' v e' hsv' hleaf hrw' => ?_
  by_cases hv : SamePage v vaddr.path
  · obtain rfl := Option.some.inj ((hstored.marked v hv).symm.trans hleaf)
    rw [SimplePte.rw_setDirty, hrw] at hrw'
    cases hrw'
  · obtain ⟨h, rfl⟩ := hstored.frame
    rw [hstored.kept v hv, ← table_of_loaded hsv hl] at hleaf
    exact hshared id sv' v e' hsv' hleaf hrw'

/-- What a new copy maps read-only it borrows. -/
theorem Shared.borrows_of_copy (hshared : s.Shared) {deep : SimplePte → Bool} {h : PhysMem A}
    {root : Option Pfn} {copiedFrom : List SvId} (hsv : s.svs id = some sv)
    (hcopy : CopyMade deep s.h (s.table id) h root)
    (hdeep : ∀ e, deep e = false → e.rw = true → id ∈ copiedFrom ∧ sv.isInstance = false)
    (hl : ∀ a ∈ sv.copiedFrom, a ∈ copiedFrom) {w : ℕ → Key} {e' : SimplePte}
    (hleaf : slotLeaf h root w = some e') (hrw : e'.rw = false) : s.Borrows copiedFrom e' := by
  obtain ⟨e, he, hdirty, hcopyOf⟩ := hcopy.leaf hleaf
  rw [hcopyOf.rw] at hrw
  cases hd : deep e with
  | true =>
    rw [hd] at hrw
    cases hrw
  | false =>
    refine Or.inr ⟨hcopyOf.dirty, ?_⟩
    rw [hcopyOf.shared hd]
    cases hrw₀ : e.rw with
    | true =>
      obtain ⟨hmem, hisSv⟩ := hdeep e hd hrw₀
      exact ⟨id, hmem, sv, hsv, hisSv, w, e, he, hrw₀, rfl⟩
    | false =>
      rcases hshared id sv w e hsv he hrw₀ with ⟨-, hclean⟩ | ⟨-, a, ha, howns⟩
      · rw [hdirty] at hclean
        cases hclean
      · exact ⟨a, hl a ha, howns⟩

/-! ## Destruction -/

/-- The caller's duty: a state vector is destroyed after everything that was copied from it. -/
def DestroysLast (s : Sys A elf) : MemStep elf → Prop
  | .destroy id => ∀ sv, s.svs id = some sv → sv.isInstance = false →
      ∀ j svj, s.svs j = some svj → id ∉ svj.copiedFrom
  | _ => True

/-- The duty as a test of everything that exists. -/
def destroysLast (s : Sys A elf) : MemStep elf → Bool
  | .destroy id => (s.svs id).all fun sv => sv.isInstance ||
      (List.range s.nextId).all fun j => (s.svs j).all fun svj => !svj.copiedFrom.contains id
  | _ => true

/-- Nothing has an identifier that the test leaves out. -/
theorem Slots.destroysLast_iff (hslots : s.Slots) (a : MemStep elf) :
    s.destroysLast a = true ↔ s.DestroysLast a := by
  cases a with
  | destroy id =>
    have hlt : ∀ j svj, s.svs j = some svj → j < s.nextId := by
      intro j svj hsvj
      by_contra hle
      rw [hslots.fresh j (Nat.le_of_not_lt hle)] at hsvj
      cases hsvj
    simp only [destroysLast, DestroysLast, Option.all_eq_true, Bool.or_eq_true, List.all_eq_true,
      List.mem_range, Bool.not_eq_true', List.contains_eq_mem, decide_eq_false_iff_not]
    refine forall₂_congr fun sv hsv => ?_
    constructor
    · intro h hisSv j svj hsvj
      exact h.resolve_left (Bool.eq_false_iff.mp hisSv) j (hlt j svj hsvj) svj hsvj
    · intro h
      by_cases hisInstance : sv.isInstance = true
      · exact Or.inl hisInstance
      · exact Or.inr fun j _ svj hsvj => h (Bool.eq_false_iff.mpr hisInstance) j svj hsvj
  | _ => exact iff_of_true rfl trivial

/-- Nobody loses a frame that is borrowed. -/
theorem Destroyed.shared (hshared : s.Shared) (hlast : s.DestroysLast (.destroy id))
    (hdestroyed : s.Destroyed id s') : s'.Shared := by
  intro j svj v e hsvj hleaf hrw
  have hj : j ≠ id := by
    rintro rfl
    rw [hdestroyed.svs_self] at hsvj
    cases hsvj
  rw [hdestroyed.svs_of_ne hj] at hsvj
  rw [hdestroyed.slotLeaf_eq hj] at hleaf
  refine (hshared j svj v e hsvj hleaf hrw).mono (fun a ha howns => ?_) fun _ ha => ha
  obtain ⟨sva, hsva, hisSv, w, e', hleaf', hrest⟩ := howns
  have hne : a ≠ id := by
    rintro rfl
    exact hlast sva hsva hisSv j svj hsvj ha
  exact ⟨sva, (hdestroyed.svs_of_ne hne).trans hsva, hisSv, w, e',
    (hdestroyed.slotLeaf_eq hne w).trans hleaf', hrest⟩

theorem Stepped.shared (hwf : s.Wf) (hshared : s.Shared) {a : MemStep elf}
    (hlast : s.DestroysLast a) (hstep : s.Stepped a s') : s'.Shared := by
  cases hstep with
  | createSV image =>
    refine (effect_addSv (h := s.h) hwf.toSlots rfl (Builds.refl (by simp)).toEvolves).shared hwf
      hshared fun sv v e _ hleaf _ => ?_
    cases hleaf
  | @newInstance src sv root h hsrc hisSv hcopy =>
    refine (effect_addSv hwf.toSlots rfl hcopy.builds.toEvolves).shared hwf hshared
      fun sv' v e hsv' hleaf hrw => ?_
    obtain rfl := Option.some.inj ((svs_addSv_self ..).symm.trans hsv')
    have hcopiedFrom : (sv.clone src root).copiedFrom = src :: sv.copiedFrom :=
      if_pos (isSome_of_slotLeaf hleaf)
    rw [hcopiedFrom]
    exact hshared.borrows_of_copy hsrc hcopy (fun _ _ _ => ⟨List.mem_cons_self, hisSv⟩)
      (fun _ ha => List.mem_cons_of_mem _ ha) hleaf hrw
  | @load c id sv s' hempty hsv hisInstance hl hloaded =>
    refine (hloaded.effect hwf hempty hsv hisInstance hl).shared hwf hshared
      fun sv' v e hsv' hleaf hrw => ?_
    rw [hloaded.svs, Function.update_self] at hsv'
    obtain rfl := Option.some.inj hsv'
    rw [hloaded.h] at hleaf
    exact hshared id sv v e hsv hleaf hrw
  | @unload c id sv s' hid hsv hl hunloaded =>
    refine (hunloaded.effect hwf hid hsv hl).shared hwf hshared fun sv' v e hsv' hleaf hrw => ?_
    rw [hunloaded.svs, Function.update_self] at hsv'
    obtain rfl := Option.some.inj hsv'
    rw [hunloaded.h] at hleaf
    exact hshared id sv v e hsv (hwf.slotLeaf_of_root hsv hl hleaf) hrw
  | read hid hsv hl hvalid haccessed =>
    have hshared₁ := haccessed.shared hwf hshared hid hsv hl
    exact hshared₁
  | write hid hsv hl hvalid haccessed hstored =>
    exact hstored.shared (haccessed.wf hwf hid hsv hl) (haccessed.shared hwf hshared hid hsv hl)
      (haccessed.svs ▸ hsv) hl (haccessed.rw rfl)
  | @checkpoint c id sv root h hid hsv hl hcopy =>
    refine (effect_addSv hwf.toSlots rfl hcopy.builds.toEvolves).shared hwf hshared
      fun sv' v e hsv' hleaf hrw => ?_
    obtain rfl := Option.some.inj ((svs_addSv_self ..).symm.trans hsv')
    refine hshared.borrows_of_copy hsv hcopy (fun e hdeep hrw => ?_) (fun _ ha => ha) hleaf hrw
    rw [hdeep] at hrw
    cases hrw
  | destroy hsv hl hdestroyed => exact hdestroyed.shared hshared hlast

/-! ## Freeing -/

/-- A page table that is in use: that of a handler, or of a slot. -/
def LiveRoot (s : Sys A elf) (r : Pfn) : Prop :=
  (∃ id sv, s.svs id = some sv ∧ sv.root = some r) ∨ ∃ c, s.getSlotPDPTRoot c = some r

/-- The frame is a table or a leaf of a page table in use. -/
def Reachable (s : Sys A elf) (f : Pfn) : Prop :=
  ∃ r, s.LiveRoot r ∧ f ∈ pageTables.frames (fun _ => true) s.h.mem pdptLevel r

/-- The page tables in use are those of what exists. -/
theorem Wf.exists_table (hwf : s.Wf) {r : Pfn} (hr : s.LiveRoot r) :
    ∃ id sv, s.svs id = some sv ∧ s.table id = some r := by
  rcases hr with ⟨id, sv, hsv, hroot⟩ | ⟨c, hslot⟩
  · refine ⟨id, sv, hsv, ?_⟩
    cases hl : sv.loadedOn with
    | none => exact (table_of_unloaded hsv hl).trans hroot
    | some c =>
      exact (table_of_loaded hsv hl).trans (hwf.root_of_loaded id sv c r hsv hl hroot)
  · cases hid : s.activeUmi c with
    | none =>
      rw [getSlotPDPTRoot_of_clear (hwf.pml4_of_empty c hid)] at hslot
      cases hslot
    | some id =>
      obtain ⟨sv, hsv, hl⟩ := (hwf.activeUmi_iff c id).mp hid
      exact ⟨id, sv, hsv, (table_of_loaded hsv hl).trans hslot⟩

/-- A frame in reach is one that a table has, or one that a leaf borrows. -/
theorem Shared.reachable (hshared : s.Shared) (hwf : s.Wf) (hf : s.Reachable f) :
    ∃ id, f ∈ slotFrames s.h (s.table id) ∨ f ∈ elf := by
  obtain ⟨r, hr, hf⟩ := hf
  obtain ⟨id, sv, hsv, htable⟩ := hwf.exists_table hr
  rcases mem_frames_cases hf with hnode | ⟨v, l, e, hleaf, -, rfl⟩
  · exact ⟨id, Or.inl ⟨r, htable, nodes_subset_frames _ _ hnode⟩⟩
  · have hroot := hwf.apart.mappable id
    obtain rfl : l = 1 :=
      EntryKind.level _ _ (Entries.leaf (hroot r htable).entries hleaf) (leaf_spec hleaf).2.2.2
    have hslotLeaf := (slotLeaf_eq_some hroot).mpr ⟨r, htable, hleaf⟩
    cases hrw : e.rw with
    | true => exact ⟨id, Or.inl (frame_mem_slotFrames hroot hslotLeaf hrw)⟩
    | false =>
      rcases hshared id sv v e hsv hslotLeaf hrw with ⟨helf, -⟩ | ⟨-, a, -, howns⟩
      · exact ⟨id, Or.inr helf⟩
      · obtain ⟨-, -, -, w, e', hleaf', hrw', hframe⟩ := howns
        have hmem := frame_mem_slotFrames (hwf.apart.mappable a) hleaf' hrw'
        rw [hframe] at hmem
        exact ⟨a, Or.inl hmem⟩

/-- Every frame that the step frees is in use when it is freed, is in reach of no page table in use,
and is no page of the ELF image. -/
def FreesSafely (s : Sys A elf) (a : MemStep elf) : Prop :=
  ∀ s', s.step a = some s' → ∃ calls, s'.h.freeCalls = calls ++ s.h.freeCalls ∧
    ∀ call ∈ calls, ¬ A.IsFree call.1 call.2 ∧ ¬ s'.Reachable call.2 ∧ call.2 ∉ elf

/-- Steps other than destructions free nothing. -/
theorem Stepped.freeCalls (hwf : s.Wf) {a : MemStep elf} (hstep : s.Stepped a s')
    (hdestroy : ∀ id, a ≠ .destroy id) : s'.h.freeCalls = s.h.freeCalls := by
  cases hstep with
  | createSV image => rfl
  | newInstance hsrc hisSv hcopy => exact hcopy.builds.freeCalls
  | load hempty hsv hisInstance hl hloaded => rw [hloaded.h]
  | unload hid hsv hl hunloaded => rw [hunloaded.h]
  | read hid hsv hl hvalid haccessed =>
    rcases haccessed.fault with rfl | ⟨ec, hfaulted, -, -⟩
    · rfl
    · exact hfaulted.builds.freeCalls
  | write hid hsv hl hvalid haccessed hstored =>
    rcases haccessed.fault with rfl | ⟨ec, hfaulted, -, -⟩
    · exact hstored.evolves.freeCalls
    · exact hstored.evolves.freeCalls.trans hfaulted.builds.freeCalls
  | checkpoint hid hsv hl hcopy => exact hcopy.builds.freeCalls
  | destroy hsv hl hdestroyed => exact absurd rfl (hdestroy _)

theorem Stepped.freesSafely (hwf : s.Wf) (hshared : s.Shared) {a : MemStep elf}
    (hlast : s.DestroysLast a) (hstep : s.Stepped a s') :
    ∃ calls, s'.h.freeCalls = calls ++ s.h.freeCalls ∧
      ∀ call ∈ calls, ¬ A.IsFree call.1 call.2 ∧ ¬ s'.Reachable call.2 ∧ call.2 ∉ elf := by
  by_cases hdestroy : ∀ id, a ≠ .destroy id
  · exact ⟨[], hstep.freeCalls hwf hdestroy, fun _ hcall => absurd hcall List.not_mem_nil⟩
  · push Not at hdestroy
    obtain ⟨id, rfl⟩ := hdestroy
    have hwf' := hstep.wf hwf
    have hshared' := hstep.shared hwf hshared hlast
    cases hstep with
    | destroy hsv hl hdestroyed =>
      obtain ⟨calls, hcalls, hall⟩ := hdestroyed.freed.freeCalls
      refine ⟨calls, hcalls, fun call hcall => ?_⟩
      obtain ⟨hused, hmem⟩ := hall call hcall
      refine ⟨hused, fun hreachable => ?_, hwf.apart.not_pinned id call.2 hmem⟩
      have hfree : s'.h.IsFree call.2 := (hdestroyed.freed.isFree call.2).mpr (Or.inr hmem)
      obtain ⟨j, hheld | helf⟩ := hshared'.reachable hwf' hreachable
      · exact hwf'.apart.used hheld hfree
      · exact hwf'.apart.used_of_pinned call.2 helf hfree

theorem shared_init (boot : BootMem A elf) : (init boot).Shared :=
  fun _ _ _ _ hsv => by cases hsv

/-- Physical frame ownership: while state vectors are destroyed after everything that was copied from
them, no step frees a frame that is free, in reach of a page table in use, or a page of the ELF
image. -/
theorem freesSafely_run (boot : BootMem A elf) (steps : List (MemStep elf))
    (hlast : AllSteps step DestroysLast (init boot) steps) :
    AllSteps step FreesSafely (init boot) steps := by
  refine allSteps_of_invariant (I := fun s => s.Wf ∧ s.Shared) (fun s a hlast hs s' hstep => ?_)
    (fun s a s' hlast hs hstep => ?_) ⟨wf_init boot, shared_init boot⟩ hlast
  · exact (step_stepped hs.1 hstep).freesSafely hs.1 hs.2 hlast
  · have hstepped := step_stepped hs.1 hstep
    exact ⟨hstepped.wf hs.1, hstepped.shared hs.1 hs.2 hlast⟩

/-- A page that something can write is in use, and free once that is destroyed. -/
theorem Wf.destroy_frees (hwf : s.Wf) {v : ℕ → Key} {e : SimplePte}
    (hleaf : slotLeaf s.h (s.table id) v = some e) (hrw : e.rw = true)
    (hstep : s.step (.destroy id) = some s') : ¬ s.h.IsFree e.frame ∧ s'.h.IsFree e.frame := by
  have hmem := frame_mem_slotFrames (hwf.apart.mappable id) hleaf hrw
  refine ⟨hwf.apart.used hmem, ?_⟩
  cases step_stepped hwf hstep with
  | destroy hsv hl hdestroyed => exact (hdestroyed.freed.isFree e.frame).mpr (Or.inr hmem)

/-- A destruction leaves the other tables as they are. -/
theorem Wf.slotLeaf_destroy (hwf : s.Wf) (hstep : s.step (.destroy id) = some s') {j : SvId}
    (hj : j ≠ id) (v : ℕ → Key) :
    slotLeaf s'.h (s'.table j) v = slotLeaf s.h (s.table j) v := by
  cases step_stepped hwf hstep with
  | destroy hsv hl hdestroyed => exact hdestroyed.slotLeaf_eq hj v

/-- A clone of a checkpoint, which has written to the page that it shared with it, is destroyed, and then
the checkpoint.  The clone's page is freed with the clone, and that of the checkpoint with the
checkpoint. -/
theorem freesSafely_clone :
    AllSteps step FreesSafely (init twelveBoot)
      (cloneAndWrite ++ [.unload 1, .destroy 3, .destroy 2]) ∧
    ∃ s t u, Foundations.run step (init twelveBoot) (cloneAndWrite ++ [.unload 1]) = some s ∧
      s.step (.destroy 3) = some t ∧ t.step (.destroy 2) = some u ∧
      (¬ s.h.IsFree 12 ∧ t.h.IsFree 12) ∧ ¬ t.h.IsFree 5 ∧ u.h.IsFree 5 := by
  have hsteps : ((Foundations.run (tabulating twelveFrames step) (init twelveBoot)
      (cloneAndWrite ++ [.unload 1])).bind fun s =>
        (tabulating twelveFrames step s (.destroy 3)).bind fun t =>
        (tabulating twelveFrames step t (.destroy 2)).map fun _ =>
          (s.destroysLast (.destroy 3), t.destroysLast (.destroy 2),
            (slotLeaf s.h (s.table 3) slotStartVAddr.path).map fun e => (e.frame, e.rw),
            (slotLeaf s.h (s.table 2) slotStartVAddr.path).map fun e => (e.frame, e.rw))) =
        some (true, true, some (12, true), some (5, true)) := by
    decide +kernel
  rw [tabulating_eq] at hsteps
  simp only [Option.bind_eq_some_iff, Option.map_eq_some_iff, Prod.mk.injEq] at hsteps
  obtain ⟨s, hrun, t, ht, u, hu, hclone, hcheckpoint, ⟨e, hleaf, h12, hrw⟩, e', hleaf', h5, hrw'⟩ :=
    hsteps
  have hwf : s.Wf := Wf.of_run hrun
  have hwf' : t.Wf := step_wf hwf ht
  refine ⟨?_, s, t, u, hrun, ht, hu, ?_, ?_⟩
  · refine freesSafely_run twelveBoot _ ?_
    have hsplit : cloneAndWrite ++ [.unload 1, .destroy 3, .destroy 2] =
        (cloneAndWrite ++ [.unload 1]) ++ [.destroy 3, .destroy 2] := by
      rw [List.append_assoc]
      rfl
    rw [hsplit]
    refine allSteps_append.mpr ⟨allSteps_of_mem (by
      simp [cloneAndWrite, checkpointFirst, loadFirst, DestroysLast]), fun s₁ h₁ => ?_⟩
    obtain rfl := Option.some.inj (hrun.symm.trans h₁)
    refine ⟨(hwf.toSlots.destroysLast_iff _).mp hclone, fun t₁ h₁ => ⟨?_, fun _ _ => trivial⟩⟩
    obtain rfl := Option.some.inj (ht.symm.trans h₁)
    exact (hwf'.toSlots.destroysLast_iff _).mp hcheckpoint
  · rw [← h12]
    exact hwf.destroy_frees hleaf hrw ht
  · rw [← h5]
    exact hwf'.destroy_frees ((hwf.slotLeaf_destroy ht (by decide) _).trans hleaf') hrw' hu

end Sys

end Umm
