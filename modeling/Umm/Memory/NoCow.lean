import Umm.Memory.PrivateCopy

/-!
# The build without copy on write

With `NOCOW` defined, the two functions that copy a page table copy every dirty page.  The machine of this
file is the memory machine of that build.  Nothing is shared in it but the pages of the ELF images, so that
state vectors may be destroyed in any order, and the guests read what they read in the other build.
-/

namespace Umm

open Foundations Foundations.Layout

variable {A : Allocator Pfn} {elf : Set Pfn}

namespace UmPth

/-- `UmPth::operator=` with `NOCOW`. -/
def copyNoCow (rhs : Option Pfn) (h : PhysMem A) : Except Stop (Option Pfn × PhysMem A) :=
  match rhs with
  | none => .ok (none, h)
  | some r => UmPgTblMgmt.walkPgTblCopyDirty r none pdptLevel h

/-- `copyInPages` with `NOCOW`. -/
def copyInPagesNoCow (srcRoot : Option Pfn) (h : PhysMem A) : Except Stop (Pfn × PhysMem A) :=
  match srcRoot with
  | none => .error .nullDeref
  | some r => do
    let (root, h) ← UmPgTblMgmt.walkPgTblCopyDirty r none pdptLevel h
    match root with
    | none => .error .nullDeref
    | some root => .ok (root, h)

end UmPth

/-- A deep copy has no leaf without write access. -/
theorem CopyMade.rw_of_deep {h₀ h : PhysMem A} {src copy : Option Pfn}
    (hcopy : CopyMade (fun _ => true) h₀ src h copy) {w : ℕ → Key} {e : SimplePte}
    (hleaf : slotLeaf h copy w = some e) : e.rw = true := by
  obtain ⟨_, -, -, hcopyOf⟩ := hcopy.leaf hleaf
  exact hcopyOf.rw

namespace Sys

/-- The constructor of `UmInstance` in the build with `NOCOW`. -/
def newInstanceNoCow (s : Sys A elf) (src : SvId) : Except Stop (Sys A elf) :=
  match s.svs src with
  | none => .error .nullDeref
  | some sv => do
    let (root, h) ← UmPth.copyNoCow sv.root s.h
    .ok ({ s with h }.addSv (sv.clone src root))

/-- `process_checkpoint` in the build with `NOCOW`. -/
def processCheckpointNoCow (s : Sys A elf) (c : UmiCore) : Except Stop (Sys A elf) := do
  let (_, sv) ← s.active c
  let (root, h) ← UmPth.copyInPagesNoCow (s.getSlotPDPTRoot c) s.h
  .ok ({ s with h }.addSv (sv.snapshot root))

/-- What a step does in the build with `NOCOW`. -/
def execNoCow (s : Sys A elf) : MemStep elf → Except Stop (Sys A elf)
  | .newInstance src => s.newInstanceNoCow src
  | .checkpoint c => s.processCheckpointNoCow c
  | a => s.exec a

/-- The machine of the build with `NOCOW`. -/
def stepNoCow (s : Sys A elf) (a : MemStep elf) : Option (Sys A elf) :=
  if s.admits a then (s.execNoCow a).toOption else none

variable {s s' : Sys A elf} {c : UmiCore} {id j : SvId} {sv : Sv elf} {root' : Option Pfn}
  {a : MemStep elf}

/-! ## Nothing is shared -/

/-- A leaf without write access maps a page of the ELF image, which is clean. -/
def Unshared (s : Sys A elf) : Prop :=
  ∀ id sv v e, s.svs id = some sv → slotLeaf s.h (s.table id) v = some e → e.rw = false →
    e.frame ∈ elf ∧ e.dirty = false

/-- What is not shared is soundly shared. -/
theorem Unshared.shared (hunshared : s.Unshared) : s.Shared :=
  fun id sv v e hsv hleaf hrw => Or.inl (hunshared id sv v e hsv hleaf hrw)

/-- Two of what exists have no frame in common but those of the images. -/
theorem Unshared.frame_ne (hunshared : s.Unshared) (hwf : s.Wf) {svj : Sv elf} (hij : id ≠ j)
    (hsv : s.svs id = some sv) (hsvj : s.svs j = some svj) {v w : ℕ → Key} {e e' : SimplePte}
    (hleaf : slotLeaf s.h (s.table id) v = some e) (hleaf' : slotLeaf s.h (s.table j) w = some e')
    (hframe : e.frame = e'.frame) : e.frame ∈ elf := by
  cases hrw : e.rw with
  | false => exact (hunshared id sv v e hsv hleaf hrw).1
  | true =>
    cases hrw' : e'.rw with
    | false => exact hframe ▸ (hunshared j svj w e' hsvj hleaf' hrw').1
    | true =>
      have hmem := frame_mem_slotFrames (hwf.apart.mappable id) hleaf hrw
      have hmem' := frame_mem_slotFrames (hwf.apart.mappable j) hleaf' hrw'
      rw [← hframe] at hmem'
      exact absurd hmem' (Set.disjoint_left.mp (hwf.apart.disjoint _ _ hij) hmem)

/-- An effect keeps the invariant when the table that it is on does. -/
theorem Effect.unshared (heffect : s.Effect id root' s') (hwf : s.Wf) (hunshared : s.Unshared)
    (hself : ∀ sv v e, s'.svs id = some sv → slotLeaf s'.h root' v = some e → e.rw = false →
      e.frame ∈ elf ∧ e.dirty = false) : s'.Unshared := by
  intro j svj v e hsvj hleaf hrw
  by_cases hj : j = id
  · subst hj
    rw [heffect.table_self] at hleaf
    exact hself svj v e hsvj hleaf hrw
  · rw [heffect.svs_of_ne j hj] at hsvj
    rw [heffect.slotLeaf_eq hwf hj] at hleaf
    exact hunshared j svj v e hsvj hleaf hrw

/-- An access shares nothing. -/
theorem Accessed.unshared {vaddr : LinAddr} {wr : Bool} {e : SimplePte} (hwf : s.Wf)
    (hunshared : s.Unshared) (hid : s.activeUmi c = some id) (hsv : s.svs id = some sv)
    (hl : sv.loadedOn = some c) (haccessed : s.Accessed c sv vaddr wr e s') : s'.Unshared := by
  rcases haccessed.fault with rfl | ⟨ec, hfaulted, -, -⟩
  · exact hunshared
  · refine (hfaulted.effect hwf hid hsv hl).unshared hwf hunshared fun sv' v e hsv' hleaf hrw => ?_
    by_cases hv : SamePage v vaddr.path
    · obtain ⟨e₀, hentered, hdirty, helf, -⟩ := hfaulted.entered
      obtain rfl := Option.some.inj ((hentered v hv).symm.trans hleaf)
      obtain ⟨helf, hwr⟩ := helf hrw
      exact ⟨helf, hdirty.trans hwr⟩
    · rw [hfaulted.kept v hv, ← table_of_loaded hsv hl] at hleaf
      exact hunshared id sv v e hsv hleaf hrw

/-- A store shares nothing. -/
theorem Stored.unshared {vaddr : LinAddr} {e : SimplePte} {value mask : Word} (hwf : s.Wf)
    (hunshared : s.Unshared) (hsv : s.svs id = some sv) (hl : sv.loadedOn = some c)
    (hrw : e.rw = true) (hstored : s.Stored c vaddr e value mask s') : s'.Unshared := by
  refine (hstored.effect hwf hsv hl).unshared hwf hunshared fun sv' v e' hsv' hleaf hrw' => ?_
  by_cases hv : SamePage v vaddr.path
  · obtain rfl := Option.some.inj ((hstored.marked v hv).symm.trans hleaf)
    rw [SimplePte.rw_setDirty, hrw] at hrw'
    cases hrw'
  · rw [hstored.kept v hv, ← table_of_loaded hsv hl] at hleaf
    exact hunshared id sv v e' hsv hleaf hrw'

/-! ## The steps -/

/-- The step copies a page table. -/
def Copies : MemStep elf → Prop
  | .newInstance _ | .checkpoint _ => True
  | _ => False

/-- What each step can do: it is one of the other build, or copies all dirty pages of a table. -/
inductive SteppedNoCow (s : Sys A elf) : MemStep elf → Sys A elf → Prop where
  /-- No table is copied. -/
  | other {a : MemStep elf} {s' : Sys A elf} (ha : ¬ Copies a) (hstep : s.Stepped a s') :
      SteppedNoCow s a s'
  /-- An instance is new; it has copies of the dirty pages of the state vector. -/
  | newInstance {src : SvId} {sv : Sv elf} {root : Option Pfn} {h : PhysMem A}
      (hsrc : s.svs src = some sv) (hisSv : sv.isInstance = false)
      (hcopy : CopyMade (fun _ => true) s.h (s.table src) h root) :
      SteppedNoCow s (.newInstance src) ({ s with h }.addSv (sv.clone src root))
  /-- A state vector is new; it has copies of the dirty pages of the instance. -/
  | checkpoint {c : UmiCore} {id : SvId} {sv : Sv elf} {root : Pfn} {h : PhysMem A}
      (hid : s.activeUmi c = some id) (hsv : s.svs id = some sv) (hl : sv.loadedOn = some c)
      (hcopy : CopyMade (fun _ => true) s.h (s.table id) h (some root)) :
      SteppedNoCow s (.checkpoint c) ({ s with h }.addSv (sv.snapshot root))

/-- A table may be copied while nothing is shared: the frames of its leaves are in use. -/
theorem Unshared.copySource (hunshared : s.Unshared) (hwf : s.Wf) (hsv : s.svs id = some sv) {r : Pfn}
    (hr : s.table id = some r) :
    CopySource GuestEntry SimplePte.rw (fun _ => true) r s.h none where
  rw_of_own := fun _ hrw => hrw
  source := hwf.apart.mappable id r hr
  copy := fun r hr => by cases hr
  pages_apart := fun f _ ⟨r, hr, _⟩ => by cases hr
  used := fun w e hleaf _ => by
    have hfresh := hwf.fresh s.nextId (Nat.le_refl _)
    have hclone : ∀ svi, s.svs s.nextId = some svi → svi.isInstance = true := by
      intro svi hsvi
      rw [hfresh] at hsvi
      cases hsvi
    exact (hunshared.shared.frame_apart hwf hsv (hr ▸ hleaf) hclone).1
  frames_apart := fun w e _ _ ⟨r, hr, _⟩ => by cases hr

/-- `operator=` copies all dirty pages to fresh frames. -/
theorem copyNoCow_made (hwf : s.Wf) (hunshared : s.Unshared) (hsv : s.svs id = some sv)
    {rhs : Option Pfn} (htable : s.table id = rhs) :
    Outcome (UmPth.copyNoCow rhs s.h) (fun p => CopyMade (fun _ => true) s.h (s.table id) p.2 p.1)
      (fun _ => True) := by
  rw [htable]
  cases rhs with
  | none =>
    exact ⟨Builds.refl (by simp), fun w e hleaf => (by cases hleaf), fun _ _ => rfl,
      fun _ => Claims.refl s.h none⟩
  | some r =>
    exact (UmPgTblMgmt.walkPgTblCopyDirty_outcome (hunshared.copySource hwf hsv htable)).mono
      (fun s hs => hs.copyMade) fun _ _ => trivial

/-- So does `copyInPages`. -/
theorem copyInPagesNoCow_made (hwf : s.Wf) (hunshared : s.Unshared) (hsv : s.svs id = some sv)
    {srcRoot : Option Pfn} (htable : s.table id = srcRoot) :
    Outcome (UmPth.copyInPagesNoCow srcRoot s.h)
      (fun p => CopyMade (fun _ => true) s.h (s.table id) p.2 (some p.1)) (fun _ => True) := by
  rw [htable]
  cases srcRoot with
  | none => trivial
  | some r =>
    refine outcome_bind.mpr ((UmPgTblMgmt.walkPgTblCopyDirty_outcome
      (hunshared.copySource hwf hsv htable)).mono ?_ fun _ _ => trivial)
    rintro ⟨root, h'⟩ hs
    cases root with
    | none => trivial
    | some root => exact hs.copyMade

/-- A step that the machine admits does what `SteppedNoCow` says, if it does not stop the core. -/
theorem execNoCow_stepped (hwf : s.Wf) (hunshared : s.Unshared) (hadmits : s.admits a = true) :
    Outcome (s.execNoCow a) (s.SteppedNoCow a) (fun _ => True) := by
  cases a with
  | newInstance src =>
    obtain ⟨sv, hsv, hisSv⟩ := (Option.any_eq_true _ _).mp hadmits
    have hisSv : sv.isInstance = false := by simpa using hisSv
    have htable := table_of_unloaded hsv (hwf.loadedOn_of_sv hsv hisSv)
    simp only [execNoCow, newInstanceNoCow, hsv]
    refine outcome_bind.mpr ((copyNoCow_made hwf hunshared hsv htable).mono ?_ fun _ _ => trivial)
    rintro ⟨root, h⟩ hcopy
    exact .newInstance hsv hisSv hcopy
  | checkpoint c =>
    obtain ⟨id, sv, hid, hsv, hl⟩ := hwf.exists_active hadmits
    simp only [execNoCow, processCheckpointNoCow, active_eq hid hsv]
    refine outcome_bind.mpr (outcome_ok.mpr (outcome_bind.mpr
      ((copyInPagesNoCow_made hwf hunshared hsv (table_of_loaded hsv hl)).mono ?_
        fun _ _ => trivial)))
    rintro ⟨root, h⟩ hcopy
    exact .checkpoint hid hsv hl hcopy
  | createSV | load | unload | read | write | destroy =>
    exact (exec_stepped hwf hadmits).mono (fun _ hstep => .other id hstep) fun _ _ => trivial

/-- What the steps of the build with `NOCOW` do. -/
theorem stepNoCow_stepped (hwf : s.Wf) (hunshared : s.Unshared) (hstep : s.stepNoCow a = some s') :
    s.SteppedNoCow a s' := by
  obtain ⟨hadmits, hexec⟩ := guarded_eq_some.mp hstep
  exact (execNoCow_stepped hwf hunshared hadmits).of_eq_ok hexec

/-! ## Invariants -/

/-- The steps that copy no table share nothing. -/
theorem Stepped.unshared (hwf : s.Wf) (hunshared : s.Unshared) (ha : ¬ Copies a)
    (hstep : s.Stepped a s') : s'.Unshared := by
  cases hstep with
  | createSV image =>
    refine (effect_addSv (h := s.h) hwf.toSlots rfl (Builds.refl (by simp)).toEvolves).unshared hwf
      hunshared fun sv v e _ hleaf _ => ?_
    cases hleaf
  | newInstance hsrc hisSv hcopy => exact absurd trivial ha
  | @load c id sv s' hempty hsv hisInstance hl hloaded =>
    refine (hloaded.effect hwf hempty hsv hisInstance hl).unshared hwf hunshared
      fun sv' v e _ hleaf hrw => ?_
    rw [hloaded.h] at hleaf
    exact hunshared id sv v e hsv hleaf hrw
  | @unload c id sv s' hid hsv hl hunloaded =>
    refine (hunloaded.effect hwf hid hsv hl).unshared hwf hunshared fun sv' v e _ hleaf hrw => ?_
    rw [hunloaded.h] at hleaf
    exact hunshared id sv v e hsv (hwf.slotLeaf_of_root hsv hl hleaf) hrw
  | read hid hsv hl hvalid haccessed =>
    have hunshared₁ := haccessed.unshared hwf hunshared hid hsv hl
    exact hunshared₁
  | write hid hsv hl hvalid haccessed hstored =>
    exact hstored.unshared (haccessed.wf hwf hid hsv hl)
      (haccessed.unshared hwf hunshared hid hsv hl) (haccessed.svs ▸ hsv) hl (haccessed.rw rfl)
  | checkpoint hid hsv hl hcopy => exact absurd trivial ha
  | @destroy id sv s' hsv hl hdestroyed =>
    intro j svj v e hsvj hleaf hrw
    have hj : j ≠ id := by
      rintro rfl
      rw [hdestroyed.svs_self] at hsvj
      cases hsvj
    rw [hdestroyed.svs_of_ne hj] at hsvj
    rw [hdestroyed.slotLeaf_eq hj] at hleaf
    exact hunshared j svj v e hsvj hleaf hrw

/-- The caller's duties that are left: checkpoints are taken of instances with a dirty page, and an
instance of an ELF image is not loaded again. -/
def OrderlyNoCow (s : Sys A elf) : MemStep elf → Prop
  | .checkpoint c => ∃ w e, slotLeaf s.h (s.getSlotPDPTRoot c) w = some e ∧ e.dirty = true
  | .load _ id => ∀ sv, s.svs id = some sv → sv.fromElf = true → sv.unloaded = none
  | _ => True

/-- What passes the test is a duty done. -/
theorem orderlyNoCow_of_attends {va : LinAddr} (h : s.attends va a = true) : s.OrderlyNoCow a := by
  cases a with
  | checkpoint c => exact exists_dirty_of_attends h
  | load c id => exact fun sv hsv hfrom => unloaded_of_attends h hsv hfrom
  | _ => trivial

/-- The tables stay tidy. -/
theorem SteppedNoCow.allTidy (hwf : s.Wf) (htidy : s.AllTidy) (horderly : s.OrderlyNoCow a)
    (hstep : s.SteppedNoCow a s') : s'.AllTidy := by
  cases hstep with
  | @newInstance src sv root h hsrc hisSv hcopy =>
    refine (effect_addSv hwf.toSlots rfl hcopy.builds.toEvolves).allTidy hwf htidy
      fun sv' hsv' => ?_
    obtain rfl := Option.some.inj ((svs_addSv_self ..).symm.trans hsv')
    refine ⟨fun hl => absurd rfl hl, fun _ => rfl, fun _ hisSv' => (by cases hisSv'),
      fun hfrom _ => ?_⟩
    obtain ⟨w, e, hleaf, hdirty⟩ := (htidy src sv hsrc).dirty hfrom hisSv
    obtain ⟨e', hleaf', -⟩ := hcopy.copied w e hleaf hdirty
    exact Option.isSome_iff_ne_none.mp (isSome_of_slotLeaf hleaf')
  | @checkpoint c id sv root h hid hsv hl hcopy =>
    have heffect : s.Effect s.nextId (some root) ({ s with h }.addSv (sv.snapshot root)) :=
      effect_addSv hwf.toSlots
        (show (sv.snapshot root).loadedOn = none from rfl) hcopy.builds.toEvolves
    refine heffect.allTidy hwf htidy fun sv' hsv' => ?_
    obtain rfl := Option.some.inj ((svs_addSv_self ..).symm.trans hsv')
    refine ⟨fun hl' => absurd rfl hl', fun _ => rfl, fun _ _ => ?_,
      fun _ hisInstance => (by cases hisInstance)⟩
    obtain ⟨w, e, hleaf, hdirty⟩ := horderly
    rw [← table_of_loaded hsv hl] at hleaf
    obtain ⟨e', hleaf', hcopyOf⟩ := hcopy.copied w e hleaf hdirty
    rw [heffect.table_self]
    exact ⟨w, e', hleaf', hcopyOf.dirty⟩
  | other ha hstep =>
    cases a with
    | destroy id =>
      cases hstep with
      | destroy hsv hl hdestroyed =>
        intro j svj hsvj
        have hj : j ≠ id := by
          rintro rfl
          rw [hdestroyed.svs_self] at hsvj
          cases hsvj
        rw [hdestroyed.svs_of_ne hj] at hsvj
        obtain ⟨hattached, hunloaded, hdirty, hroot⟩ := htidy j svj hsvj
        refine ⟨hattached, hunloaded, fun hcheckpoint hisSv => ?_, hroot⟩
        obtain ⟨w, e, hleaf, hd⟩ := hdirty hcheckpoint hisSv
        exact ⟨w, e, (hdestroyed.slotLeaf_eq hj w).trans hleaf, hd⟩
    | newInstance | checkpoint => exact absurd trivial ha
    | load c id => exact hstep.allTidy hwf htidy ⟨by trivial, horderly⟩
    | createSV | unload | read | write =>
      exact hstep.allTidy hwf htidy ⟨by trivial, by trivial⟩

/-- What holds in every state of a run. -/
structure Sound (s : Sys A elf) : Prop where
  /-- The tables are in order. -/
  wf : s.Wf
  /-- Nothing is shared. -/
  unshared : s.Unshared
  /-- A clean page has its initial content. -/
  clean : s.Clean
  /-- The duties have been kept. -/
  tidy : s.AllTidy

/-- The invariant holds after boot. -/
theorem sound_init (boot : BootMem A elf) : (init boot).Sound where
  wf := wf_init boot
  unshared := fun _ _ _ _ hsv => by cases hsv
  clean := fun _ _ _ _ _ hsv => by cases hsv
  tidy := fun _ _ hsv => by cases hsv

/-- Something new with a deep copy of a table. -/
theorem Sound.addSv (hsound : s.Sound) {sv' : Sv elf} {h : PhysMem A} (hl : sv'.loadedOn = none)
    (hcopy : CopyMade (fun _ => true) s.h (s.table id) h sv'.root)
    (htidy : ({ s with h }.addSv sv').AllTidy) : ({ s with h }.addSv sv').Sound where
  wf := ⟨slots_addSv (hsound.wf.toSlots.with_h _) hl,
    (effect_addSv hsound.wf.toSlots hl hcopy.builds.toEvolves).apart hsound.wf⟩
  unshared := by
    refine (effect_addSv hsound.wf.toSlots hl hcopy.builds.toEvolves).unshared hsound.wf
      hsound.unshared fun _ v e _ hleaf hrw => ?_
    rw [hcopy.rw_of_deep hleaf] at hrw
    cases hrw
  clean := clean_of_copy hsound.wf hsound.unshared.shared hsound.clean hcopy hl
  tidy := htidy

/-- Every orderly step keeps it. -/
theorem SteppedNoCow.sound (hsound : s.Sound) (horderly : s.OrderlyNoCow a)
    (hstep : s.SteppedNoCow a s') : s'.Sound := by
  have htidy := hstep.allTidy hsound.wf hsound.tidy horderly
  cases hstep with
  | other ha hstep =>
    exact ⟨hstep.wf hsound.wf, hstep.unshared hsound.wf hsound.unshared ha,
      hstep.clean hsound.wf hsound.unshared.shared hsound.clean, htidy⟩
  | newInstance hsrc hisSv hcopy => exact hsound.addSv rfl hcopy htidy
  | checkpoint hid hsv hl hcopy => exact hsound.addSv rfl hcopy htidy

variable {mem₀ : Pfn → Page} {p : PrivateCopies}

/-- The machine with private copies follows. -/
theorem SteppedNoCow.simulates (hsound : s.Sound) (hsim : Simulates mem₀ s p)
    (hstep : s.SteppedNoCow a s') : ∃ p', p.step mem₀ a = some p' ∧ Simulates mem₀ s' p' := by
  obtain ⟨hwf, hunshared, hclean, htidy⟩ := hsound
  have hshared := hunshared.shared
  cases hstep with
  | other ha hstep => exact hstep.simulates hwf hshared hclean htidy hsim
  | @newInstance src sv root h hsrc hisSv hcopy =>
    obtain ⟨content, hcontent, hsees⟩ := hsim.sees src sv hsrc
    have hattached : Attached sv := fun _ => (htidy src sv hsrc).unloaded hisSv
    refine ⟨p.add content, by rw [PrivateCopies.step, hcontent, Option.map_some],
      hsim.add hwf hshared rfl hcopy.builds.toEvolves fun va hva => ?_⟩
    rw [hsees hattached va hva]
    exact (pageContent_of_copy hwf hshared hclean hsrc
      (show (sv.clone src root).loadedOn = none from rfl) hcopy hva).symm
  | @checkpoint c id sv root h hid hsv hl hcopy =>
    obtain ⟨content, hcontent, hsees⟩ := hsim.sees id sv hsv
    have hattached := (htidy id sv hsv).attached (by rw [hl]; exact Option.some_ne_none c)
    refine ⟨p.add content, by rw [PrivateCopies.step, hsim.active hid hcontent, Option.map_some],
      hsim.add hwf hshared rfl hcopy.builds.toEvolves fun va hva => ?_⟩
    rw [hsees hattached va hva]
    exact (pageContent_of_copy hwf hshared hclean hsv
      (show (sv.snapshot root).loadedOn = none from rfl) hcopy hva).symm

/-! ## Runs -/

/-- After boot there is nothing to simulate. -/
theorem simulates_init (boot : BootMem A elf) :
    Simulates boot.h.mem (init boot) PrivateCopies.init :=
  ⟨rfl, rfl, rfl, fun _ _ hsv => (by cases hsv), fun _ _ => rfl⟩

/-- An orderly run of the build with `NOCOW` is one of the machine with private copies. -/
theorem simulates_runNoCow {boot : BootMem A elf} {steps : List (MemStep elf)}
    (horderly : AllSteps stepNoCow OrderlyNoCow (init boot) steps)
    (hrun : Foundations.run stepNoCow (init boot) steps = some s) :
    ∃ p, Foundations.run (PrivateCopies.step boot.h.mem) PrivateCopies.init steps = some p ∧
      s.Sound ∧ Simulates boot.h.mem s p := by
  refine run_simulation (R := fun s p => s.Sound ∧ Simulates boot.h.mem s p) ?_
    ⟨sound_init boot, simulates_init boot⟩ horderly hrun
  rintro s p a s' horderly ⟨hsound, hsim⟩ hstep
  have hstepped := stepNoCow_stepped hsound.wf hsound.unshared hstep
  obtain ⟨p', hp', hsim'⟩ := hstepped.simulates hsound hsim
  exact ⟨p', hp', hstepped.sound hsound horderly, hsim'⟩

/-- The state is one that the machine with private copies follows. -/
structure Follows (mem₀ : Pfn → Page) (s : Sys A elf) (p : PrivateCopies) : Prop where
  /-- The tables are in order. -/
  wf : s.Wf
  /-- Shared pages are not writable. -/
  shared : s.Shared
  /-- A clean page has its initial content. -/
  clean : s.Clean
  /-- The duties have been kept. -/
  tidy : s.AllTidy
  /-- The machine with private copies holds the same. -/
  simulates : Simulates mem₀ s p

/-- The machines begin alike. -/
theorem follows_init (boot : BootMem A elf) :
    Follows boot.h.mem (init boot) PrivateCopies.init where
  wf := wf_init boot
  shared := shared_init boot
  clean := fun _ _ _ _ _ hsv => by cases hsv
  tidy := fun _ _ hsv => by cases hsv
  simulates := simulates_init boot

/-- The machine with private copies takes every orderly step as well. -/
theorem Follows.step (hfollows : Follows mem₀ s p) (horderly : s.Orderly a)
    (hstep : s.step a = some s') : ∃ p', p.step mem₀ a = some p' ∧ Follows mem₀ s' p' := by
  obtain ⟨hwf, hshared, hclean, htidy, hsim⟩ := hfollows
  have hstepped := step_stepped hwf hstep
  obtain ⟨p', hp', hsim'⟩ := hstepped.simulates hwf hshared hclean htidy hsim
  exact ⟨p', hp', hstepped.wf hwf, hstepped.shared hwf hshared horderly.1,
    hstepped.clean hwf hshared hclean, hstepped.allTidy hwf htidy horderly, hsim'⟩

/-- So is an orderly run of the build with copy on write. -/
theorem simulates_run {boot : BootMem A elf} {steps : List (MemStep elf)}
    (horderly : AllSteps step Orderly (init boot) steps)
    (hrun : Foundations.run step (init boot) steps = some s) :
    ∃ p, Foundations.run (PrivateCopies.step boot.h.mem) PrivateCopies.init steps = some p ∧
      Simulates boot.h.mem s p := by
  have hfollows : ∃ p, Foundations.run (PrivateCopies.step boot.h.mem) PrivateCopies.init steps =
      some p ∧ Follows boot.h.mem s p := by
    refine run_simulation ?_ (follows_init boot) horderly hrun
    intro s p a s' horderly hfollows hstep
    exact hfollows.step horderly hstep
  obtain ⟨p, hp, hfollows⟩ := hfollows
  exact ⟨p, hp, hfollows.simulates⟩

/-- The two builds agree: in the one with `NOCOW`, the guests read what they read in the one with copy
on write, in whatever order state vectors are destroyed, and no frame is shared but those of the
images. -/
theorem noCow_agrees (boot : BootMem A elf) (steps : List (MemStep elf))
    (horderly : AllSteps stepNoCow OrderlyNoCow (init boot) steps) {t : Sys A elf}
    (hrun : Foundations.run stepNoCow (init boot) steps = some t) :
    (∃ p, Foundations.run (PrivateCopies.step boot.h.mem) PrivateCopies.init steps = some p ∧
      t.reads = p.reads) ∧
    (AllSteps step Orderly (init boot) steps →
      ∀ s, Foundations.run step (init boot) steps = some s → t.reads = s.reads) ∧
    ∀ i j svi svj v w e e', i ≠ j → t.svs i = some svi → t.svs j = some svj →
      slotLeaf t.h (t.table i) v = some e → slotLeaf t.h (t.table j) w = some e' →
      e.frame = e'.frame → e.frame ∈ elf := by
  obtain ⟨p, hp, hsound, hsim⟩ := simulates_runNoCow horderly hrun
  refine ⟨⟨p, hp, hsim.reads.symm⟩, fun horderly' s hrun' => ?_, ?_⟩
  · obtain ⟨p', hp', hsim'⟩ := simulates_run horderly' hrun'
    obtain rfl := Option.some.inj (hp.symm.trans hp')
    exact hsim.reads.symm.trans hsim'.reads
  · intro i j svi svj v w e e' hij hsvi hsvj hleaf hleaf' hframe
    exact hsound.unshared.frame_ne hsound.wf hij hsvi hsvj hleaf hleaf' hframe

/-- A checkpoint is taken and cloned: the clone has a page of its own from the start, and the guests read
what they read with copy on write. -/
theorem noCow_agrees_clone : ∃ s t,
    Foundations.run step (init twelveBoot) cloneAndRead = some s ∧
      Foundations.run stepNoCow (init twelveBoot) cloneAndRead = some t ∧ t.reads = s.reads ∧
      t.reads = [(3, slotStartVAddr, 3), (1, slotStartVAddr, 2), (3, slotStartVAddr, 1)] := by
  have hpasses : passes stepNoCow (attends slotStartVAddr) (init twelveBoot) cloneAndRead = true := by
    rw [← tabulating_eq twelveFrames stepNoCow]
    decide +kernel
  obtain ⟨htest, t, ht⟩ := passes_iff.mp hpasses
  obtain ⟨-, s, hs⟩ := passes_iff.mp passes_cloneAndRead
  obtain ⟨⟨p, hp, hreads⟩, hagree, -⟩ := noCow_agrees twelveBoot _
    (htest.mono fun _ _ => orderlyNoCow_of_attends) ht
  exact ⟨s, t, hs, ht, hagree (orderly_of_passes passes_cloneAndRead) s hs,
    hreads.trans (reads_cloneAndRead hp)⟩

end Sys

end Umm
