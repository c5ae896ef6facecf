import Umm.PageTable.Mapping
import Umm.PageTable.Tables

/-!
# The dirty pages of a table

What the three copy walkers do, for any tables without large pages: the result maps the dirty pages
of the source and the pages of the destination, each copied page with the content of its source on a
fresh frame with write access or on the source's own frame without, and neither the source nor any
frame it maps has changed.
-/

namespace Umm

open Foundations Foundations.Layout

variable {A : Allocator Pfn}

namespace UmPgTblMgmt

/-- A table that may be copied to another one, or to a new one. -/
structure SourceFor (src : Pfn) (h : PhysMem A) (copy : Option Pfn) : Prop where
  /-- The source is well formed. -/
  source : WellFormed pdptLevel h src
  /-- So is the table copied to, if there is one. -/
  destination : ∀ r, copy = some r → WellFormed pdptLevel h r
  /-- The two tables share no page. -/
  pages_apart : ∀ f ∈ slotPages h (some src), f ∉ slotPages h copy
  /-- The frames that the source maps are in use, and no page of the other table is among them. -/
  frames : ∀ v e, slotLeaf h (some src) v = some e →
    ¬ h.IsFree e.frame ∧ e.frame ∉ slotPages h copy

/-- The dirty pages of `src` have been copied to the table `copy`, on fresh frames those that `deep`
accepts and on their own frames the others; `s` is the result. -/
structure CopiesDirty (deep : SimplePte → Bool) (src : Pfn) (h : PhysMem A) (copy : Option Pfn)
    (s : CopyState A) : Prop where
  /-- The result maps the dirty pages of the source and the pages of the destination. -/
  maps_iff : ∀ v, (∃ e', slotLeaf s.2 s.1 v = some e') ↔
    (∃ e, slotLeaf h (some src) v = some e ∧ e.dirty = true) ∨ ∃ e, slotLeaf h copy v = some e
  /-- The other pages keep the leaf of the destination. -/
  kept : ∀ v, (∀ e, slotLeaf h (some src) v = some e → e.dirty = false) →
    slotLeaf s.2 s.1 v = slotLeaf h copy v
  /-- A copied page has the content of its source. -/
  copied : ∀ v e, slotLeaf h (some src) v = some e → e.dirty = true →
    ∃ e', slotLeaf s.2 s.1 v = some e' ∧ e'.dirty = true ∧ e'.a = true ∧
      s.2.mem e'.frame = h.mem e.frame ∧
      (deep e = true → e'.rw = true ∧ h.IsFree e'.frame ∧ ¬ s.2.IsFree e'.frame) ∧
      (deep e = false → e'.rw = false ∧ e'.frame = e.frame)
  /-- No two pages are copied to the same fresh frame. -/
  distinct : ∀ v w, DeepAt deep src h v → DeepAt deep src h w →
    (slotLeaf s.2 s.1 v).map SimplePte.frame = (slotLeaf s.2 s.1 w).map SimplePte.frame →
    SamePage v w
  /-- The source translates as before. -/
  source : ∀ v, slotLeaf s.2 (some src) v = slotLeaf h (some src) v
  /-- Its pages have not been written. -/
  pages : ∀ f ∈ slotPages h (some src), s.2.mem f = h.mem f
  /-- The frames it maps have not been written. -/
  frames : ∀ v e, slotLeaf h (some src) v = some e → s.2.mem e.frame = h.mem e.frame
  /-- The result is well formed. -/
  wellFormed : ∀ r, s.1 = some r → WellFormed pdptLevel s.2 r
  /-- There is no result if there was no table to copy to and nothing to copy. -/
  null_iff : s.1 = none ↔
    copy = none ∧ ∀ v e, slotLeaf h (some src) v = some e → e.dirty = false

section Walkers

variable {deep : SimplePte → Bool} {src : Pfn} {h : PhysMem A} {copy : Option Pfn} {s : CopyState A}

theorem SourceFor.copySource (hsrc : SourceFor src h copy) (deep : SimplePte → Bool) :
    CopySource LeafAtTable (fun _ => false) deep src h copy where
  rw_of_own := fun _ hown => by cases hown
  source := hsrc.source
  copy := hsrc.destination
  pages_apart := hsrc.pages_apart
  used := fun v e he _ => (hsrc.frames v e he).1
  frames_apart := fun v e he _ => (hsrc.frames v e he).2

/-- What has been copied when all leaves of the source have been visited. -/
theorem SourceFor.copiesDirty (hsrc : SourceFor src h copy)
    (hs : CopiedLeaves LeafAtTable (fun _ => false) deep src h copy Set.univ s) :
    CopiesDirty deep src h copy s := by
  have hpages : ∀ f ∈ slotPages h (some src), s.2.mem f = h.mem f := by
    intro f hf
    refine hs.builds.page_eq f ?_ (hsrc.pages_apart f hf)
    exact hsrc.source.used f (mem_held.mp hf)
  have hframes : ∀ v e, slotLeaf h (some src) v = some e → s.2.mem e.frame = h.mem e.frame :=
    fun v e he => hs.builds.page_eq _ (hsrc.frames v e he).1 (hsrc.frames v e he).2
  have hclean : ∀ v, (∀ e, slotLeaf h (some src) v = some e → e.dirty = false) →
      slotLeaf s.2 s.1 v = slotLeaf h copy v := fun v hv => hs.kept v fun _ => hv
  have hcopied : ∀ v e, slotLeaf h (some src) v = some e → e.dirty = true →
      ∃ e', slotLeaf s.2 s.1 v = some e' ∧ CopyOf deep h s.2 s.1 e e' :=
    fun v e he hdirty => hs.copied v (Set.mem_univ v) e he hdirty
  refine { maps_iff := fun v => ?_, kept := hclean, copied := fun v e he hdirty => ?_,
           distinct := fun v w => hs.distinct v (Set.mem_univ v) w (Set.mem_univ w),
           source := slotLeaf_congr hpages, pages := hpages, frames := hframes,
           wellFormed := hs.builds.mappable, null_iff := ⟨fun hnull => ?_, fun hnone => ?_⟩ }
  · by_cases hv : ∃ e, slotLeaf h (some src) v = some e ∧ e.dirty = true
    · obtain ⟨e, he, hdirty⟩ := hv
      exact ⟨fun _ => Or.inl ⟨e, he, hdirty⟩, fun _ => (hcopied v e he hdirty).imp fun _ h => h.1⟩
    · rw [hclean v fun e he => Bool.eq_false_iff.mpr fun hdirty => hv ⟨e, he, hdirty⟩]
      exact (or_iff_right hv).symm
  · obtain ⟨e', he', hcopy⟩ := hcopied v e he hdirty
    refine ⟨e', he', hcopy.dirty, hcopy.a, ?_, fun hdeep => ?_, fun hshared => ?_⟩
    · cases hdeep : deep e with
      | true => exact (hcopy.own hdeep).2.2.2
      | false => rw [hcopy.shared hdeep, hframes v e he]
    · exact ⟨hcopy.rw.trans hdeep, (hcopy.own hdeep).1, (hcopy.own hdeep).2.1⟩
    · exact ⟨hcopy.rw.trans hshared, hcopy.shared hshared⟩
  · refine ⟨?_, fun v e he => Bool.eq_false_iff.mpr fun hdirty => ?_⟩
    · cases hdst : copy with
      | none => rfl
      | some r =>
        rw [hs.builds.root_eq r hdst] at hnull
        cases hnull
    · obtain ⟨e', he', -⟩ := hcopied v e he hdirty
      rw [hnull] at he'
      cases he'
  · exact hs.null hnone.1 fun v _ => hnone.2 v

/-- The three walkers copy the dirty pages: `walkPgTblCopyDirty` to fresh frames, `walkPgTblCOW` by
reference, and `walkPgTblCopyDirtyCOW` those with write access to fresh frames and the others by
reference. -/
theorem walkers_copyDirty (hsrc : SourceFor src h copy) :
    Outcome (walkPgTblCopyDirty src copy pdptLevel h) (CopiesDirty (fun _ => true) src h copy)
      (· = .kbugon) ∧
    Outcome (walkPgTblCOW src copy pdptLevel h) (CopiesDirty (fun _ => false) src h copy)
      (· = .kbugon) ∧
    Outcome (walkPgTblCopyDirtyCOW src copy pdptLevel h) (CopiesDirty SimplePte.rw src h copy)
      (· = .kbugon) := by
  refine ⟨?_, ?_, ?_⟩
  · exact (walkPgTblCopyDirty_outcome (hsrc.copySource _)).mono
      (fun s hs => hsrc.copiesDirty hs) fun _ h => h
  · exact (walkPgTblCOW_outcome (hsrc.copySource _)).mono
      (fun s hs => hsrc.copiesDirty hs) fun _ h => h
  · exact (walkPgTblCopyDirtyCOW_outcome (hsrc.copySource _)).mono
      (fun s hs => hsrc.copiesDirty hs) fun _ h => h

end Walkers

end UmPgTblMgmt

namespace Tables

open UmPgTblMgmt

variable {elf : Set Pfn} {s : Tables A elf}

/-- The tables of a family have no large pages. -/
theorem Wf.wellFormed (hwf : s.Wf) {i : ℕ} {t : Pfn} (ht : s.root i = some t) :
    WellFormed pdptLevel s.h t :=
  have htable := hwf.apart.mappable i t ht
  ⟨htable.separate, htable.entries.mono fun _ _ he => he.2, htable.used⟩

/-- Any of them may be copied to any other one. -/
theorem Wf.sourceFor (hwf : s.Wf) {src dst : ℕ} {r : Pfn} (hr : s.root src = some r)
    (hne : src ≠ dst) : SourceFor r s.h (s.root dst) where
  source := hwf.wellFormed hr
  destination := fun _ hdst => hwf.wellFormed hdst
  pages_apart := (hwf.copyable hr hne fun _ => true).pages_apart
  frames := fun v e he => ⟨hwf.used src v e (hr ▸ he), hwf.no_page src v e (hr ▸ he) dst⟩

end Tables

namespace UmPgTblMgmt

open Tables

/-- A table with a dirty page by reference, a dirty page of its own and a page that is not dirty is copied
to a table with another page, by all three walkers. -/
theorem walkers_copyDirty_threeTables : ∃ s src s₁ s₂ s₃,
    run step (init twentyFrames) threeTables = some s ∧ s.root 1 = some src ∧ s.root 2 = some 14 ∧
    ([0, 0x2000, 0x3000].map fun offset =>
      (slotLeaf s.h (some src) (slotStartVAddr + offset).path).map fun e => (e.dirty, e.rw)) =
        [some (true, false), some (true, true), some (false, true)] ∧
    (walkPgTblCopyDirty src (s.root 2) pdptLevel s.h = .ok s₁ ∧
      CopiesDirty (fun _ => true) src s.h (s.root 2) s₁) ∧
    (walkPgTblCOW src (s.root 2) pdptLevel s.h = .ok s₂ ∧
      CopiesDirty (fun _ => false) src s.h (s.root 2) s₂) ∧
    (walkPgTblCopyDirtyCOW src (s.root 2) pdptLevel s.h = .ok s₃ ∧
      CopiesDirty SimplePte.rw src s.h (s.root 2) s₃) := by
  have hcopies : ((run step (init twentyFrames) threeTables).bind fun s =>
      (s.root 1).bind fun src =>
        (walkPgTblCopyDirty src (s.root 2) pdptLevel s.h).toOption.bind fun _ =>
        (walkPgTblCOW src (s.root 2) pdptLevel s.h).toOption.bind fun _ =>
        (walkPgTblCopyDirtyCOW src (s.root 2) pdptLevel s.h).toOption.map fun _ =>
          (s.root 2, [0, 0x2000, 0x3000].map fun offset =>
            (slotLeaf s.h (some src) (slotStartVAddr + offset).path).map fun e => (e.dirty, e.rw))) =
      some (some 14, [some (true, false), some (true, true), some (false, true)]) := by
    decide +kernel
  simp only [Option.bind_eq_some_iff, Option.map_eq_some_iff, toOption_eq_some, Prod.mk.injEq]
    at hcopies
  obtain ⟨s, hrun, src, hsrc, s₁, h₁, s₂, h₂, s₃, h₃, hdst, hleaves⟩ := hcopies
  obtain ⟨hdirty, hcow, hdirtyCow⟩ :=
    walkers_copyDirty ((wf_of_run twentyFrames hrun).sourceFor hsrc (show 1 ≠ 2 by decide))
  exact ⟨s, src, s₁, s₂, s₃, hrun, hsrc, hdst, hleaves, ⟨h₁, hdirty.of_eq_ok h₁⟩,
    ⟨h₂, hcow.of_eq_ok h₂⟩, h₃, hdirtyCow.of_eq_ok h₃⟩

end UmPgTblMgmt

end Umm
