import Umm.PageTable.Tables

/-!
# Permissions of copied pages

The walkers build the entries of a copy with `setPte`, which is not told whether the page may be
executed.  `KeepsPermissions` says that a copy gains no permission, and it holds exactly while no dirty
page that is copied has the `XD` bit.
-/

namespace Umm

open Foundations

variable {A : Allocator Pfn} {elf : Set Pfn}

/-- The tables a step copies from and to. -/
def TableStep.copies : TableStep elf → Option (ℕ × ℕ)
  | .cow src dst | .copyDirtyCOW src dst => some (src, dst)
  | _ => none

namespace Tables

variable {s s' : Tables A elf} {a : TableStep elf} {src dst : ℕ}

/-- A new copy has no permission that its source does not have. -/
def KeepsPermissions (s : Tables A elf) (a : TableStep elf) : Prop :=
  ∀ src dst, a.copies = some (src, dst) → s.root dst = none → ∀ s', s.step a = some s' →
    ∀ v e e', slotLeaf s.h (s.root src) v = some e → slotLeaf s'.h (s'.root dst) v = some e' →
      (e.xd = true → e'.xd = true) ∧ (e.rw = false → e'.rw = false)

/-- The dirty pages that are copied may be executed. -/
def DirtyExecutable (s : Tables A elf) (a : TableStep elf) : Prop :=
  ∀ src dst, a.copies = some (src, dst) → s.root dst = none →
    ∀ v e, slotLeaf s.h (s.root src) v = some e → e.dirty = true → e.xd = false

/-- A step that copies makes a shared copy or a deep copy of the pages with write access. -/
theorem copiedTo_of_step (hwf : s.Wf) (hcopies : a.copies = some (src, dst))
    (hstep : s.step a = some s') :
    ∃ deep : SimplePte → Bool, (∀ e, e.rw = false → deep e = false) ∧ s.CopiedTo deep src dst s' := by
  obtain ⟨hadmits, hexec⟩ := step_eq_some.mp hstep
  cases a with
  | cow src' dst' =>
    obtain ⟨rfl, rfl⟩ := Prod.mk.inj (Option.some.inj hcopies)
    have hcopied := (copy_outcome hwf (by simpa [admits] using hadmits) fun r hr =>
      UmPgTblMgmt.walkPgTblCOW_outcome hr).of_eq_ok hexec
    exact ⟨_, fun _ _ => rfl, hcopied.2⟩
  | copyDirtyCOW src' dst' =>
    obtain ⟨rfl, rfl⟩ := Prod.mk.inj (Option.some.inj hcopies)
    have hcopied := (copy_outcome hwf (by simpa [admits] using hadmits) fun r hr =>
      UmPgTblMgmt.walkPgTblCopyDirtyCOW_outcome hr).of_eq_ok hexec
    exact ⟨_, fun _ hrw => hrw, hcopied.2⟩
  | _ => cases hcopies

/-- Every leaf of a new copy comes from a dirty leaf: it may be executed, and written only where
the source may be. -/
theorem leaf_of_copy (hwf : s.Wf) (hcopies : a.copies = some (src, dst)) (hdst : s.root dst = none)
    (hstep : s.step a = some s') {v : ℕ → Key} {e e' : SimplePte}
    (he : slotLeaf s.h (s.root src) v = some e) (he' : slotLeaf s'.h (s'.root dst) v = some e') :
    e.dirty = true ∧ e'.xd = false ∧ (e.rw = false → e'.rw = false) := by
  obtain ⟨deep, hdeep, r, hr, hcopied⟩ := copiedTo_of_step hwf hcopies hstep
  rw [hr] at he
  cases hdirty : e.dirty with
  | false =>
    have hkept := hcopied.kept v fun _ e₁ he₁ => by
      obtain rfl := Option.some.inj (he.symm.trans he₁)
      exact hdirty
    rw [he', hdst] at hkept
    cases hkept
  | true =>
    obtain ⟨e'', he'', hcopy⟩ := hcopied.copied v (Set.mem_univ v) e he hdirty
    obtain rfl := Option.some.inj (he'.symm.trans he'')
    exact ⟨rfl, hcopy.xd, fun hrw => by rw [hcopy.rw, hdeep e hrw]⟩

/-- Every dirty leaf has a copy. -/
theorem exists_leaf_of_copy (hwf : s.Wf) (hcopies : a.copies = some (src, dst))
    (hstep : s.step a = some s') {v : ℕ → Key} {e : SimplePte}
    (he : slotLeaf s.h (s.root src) v = some e) (hdirty : e.dirty = true) :
    ∃ e', slotLeaf s'.h (s'.root dst) v = some e' := by
  obtain ⟨deep, -, r, hr, hcopied⟩ := copiedTo_of_step hwf hcopies hstep
  rw [hr] at he
  obtain ⟨e', he', -⟩ := hcopied.copied v (Set.mem_univ v) e he hdirty
  exact ⟨e', he'⟩

/-- A copy gains no permission if the dirty pages of its source may be executed. -/
theorem Wf.keepsPermissions (hwf : s.Wf) (hdirty : s.DirtyExecutable a) : s.KeepsPermissions a := by
  intro src dst hcopies hdst s' hstep v e e' he he'
  obtain ⟨hd, -, hrw⟩ := leaf_of_copy hwf hcopies hdst hstep he he'
  refine ⟨fun hxd => ?_, hrw⟩
  rw [hdirty src dst hcopies hdst v e he hd] at hxd
  cases hxd

/-- It gains the permission to execute every other dirty page. -/
theorem Wf.dirtyExecutable (hwf : s.Wf) (hstep : ∃ s', s.step a = some s')
    (hkeeps : s.KeepsPermissions a) : s.DirtyExecutable a := by
  intro src dst hcopies hdst v e he hd
  obtain ⟨s', hstep⟩ := hstep
  obtain ⟨e', he'⟩ := exists_leaf_of_copy hwf hcopies hstep he hd
  obtain ⟨-, hxd', -⟩ := leaf_of_copy hwf hcopies hdst hstep he he'
  by_contra hxd
  have hkept := (hkeeps src dst hcopies hdst s' hstep v e e' he he').1 (by simpa using hxd)
  rw [hxd'] at hkept
  cases hkept

/-! ## Runs -/

/-- Copies gain no permissions in the runs that copy only dirty pages that may be executed, and in
no other run that succeeds. -/
theorem keepsPermissions_run (boot : BootMem A elf) (steps : List (TableStep elf)) :
    (AllSteps step DirtyExecutable (init boot) steps →
      AllSteps step KeepsPermissions (init boot) steps) ∧
    ∀ s, Foundations.run step (init boot) steps = some s →
      AllSteps step KeepsPermissions (init boot) steps →
        AllSteps step DirtyExecutable (init boot) steps := by
  have hinv : ∀ (s : Tables A elf) a s', s.Wf → s.step a = some s' → s'.Wf :=
    fun s a s' hwf hstep => hwf.of_step hstep
  refine ⟨fun h => ?_, fun s hrun h => ?_⟩
  · exact allSteps_of_invariant (I := Wf) (fun s a hdirty hwf => Wf.keepsPermissions hwf hdirty)
      (fun s a s' _ => hinv s a s') (wf_init boot) h
  · exact allSteps_of_invariant (I := Wf) (fun s a ha hwf => Wf.dirtyExecutable hwf ha.2 ha.1)
      (fun s a s' _ => hinv s a s') (wf_init boot) (h.and (allSteps_of_run hrun))

/-- A memory with seven free frames. -/
def sevenPages : BootMem (Allocator.freeList Pfn) ∅ where
  h := { mem := fun _ _ => 0, pal := [1, 2, 3, 4, 5, 6, 7], freeCalls := [] }
  used := by simp

/-- A write to a page that may not be executed: in a copy of the table it may be executed. -/
theorem not_keepsPermissions_xd :
    ¬ AllSteps step KeepsPermissions (init sevenPages)
      [.pageFault 0 slotStartVAddr (.alloc fun _ => 0) true true true, .cow 0 1] := by
  intro hkeeps
  have hrun : ((init sevenPages).step (.pageFault 0 slotStartVAddr (.alloc fun _ => 0) true true
      true)).bind (fun s₁ => (s₁.step (.cow 0 1)).map fun s₂ =>
        (s₁.root 1, (slotLeaf s₁.h (s₁.root 0) slotStartVAddr.path).map SimplePte.xd,
          (slotLeaf s₂.h (s₂.root 1) slotStartVAddr.path).map SimplePte.xd)) =
      some (none, some true, some false) := by
    decide +kernel
  simp only [Option.bind_eq_some_iff, Option.map_eq_some_iff, Prod.mk.injEq] at hrun
  obtain ⟨s₁, h₁, s₂, h₂, hdst, ⟨e, he, hxd⟩, e', he', hxd'⟩ := hrun
  have hkept := ((hkeeps.2 s₁ h₁).1 0 1 rfl hdst s₂ h₂ _ e e' he he').1 hxd
  rw [hxd'] at hkept
  cases hkept

end Tables

end Umm
