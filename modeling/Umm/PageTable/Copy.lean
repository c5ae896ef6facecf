import Umm.PageTable.SlotTable

/-!
# Copies of slot page tables

The copy walkers enter the dirty pages of a table into another one.  A page is copied `deep`, into a
frame of its own with write access, or shared: the copy maps the frame of the source, read-only.
The three walkers differ only in which pages they copy deep.
-/

namespace Umm

open Foundations Foundations.Layout

variable {A : Allocator Pfn}

/-- `e'` is a copy of the dirty leaf `e` of the memory `h₀`; its content in `h`, with the table
`copy`. -/
structure CopyOf (deep : SimplePte → Bool) (h₀ : PhysMem A) (h : PhysMem A) (copy : Option Pfn)
    (e e' : SimplePte) : Prop where
  /-- The copy is dirty. -/
  dirty : e'.dirty = true
  /-- It is accessed. -/
  a : e'.a = true
  /-- It is not kept from being executed. -/
  xd : e'.xd = false
  /-- A deep copy can be written, a shared one cannot. -/
  rw : e'.rw = deep e
  /-- A deep copy is on a frame of its own, with the content. -/
  own : deep e = true → h₀.IsFree e'.frame ∧ ¬ h.IsFree e'.frame ∧ e'.frame ∉ slotPages h copy ∧
    h.mem e'.frame = h₀.mem e.frame
  /-- A shared one is on the same frame. -/
  shared : deep e = false → e'.frame = e.frame

/-- The leaf at the end of a path is dirty and is copied deep. -/
def DeepAt (deep : SimplePte → Bool) (src : Pfn) (h₀ : PhysMem A) (w : ℕ → Key) : Prop :=
  ∃ e, slotLeaf h₀ (some src) w = some e ∧ e.dirty = true ∧ deep e = true

/-- The dirty leaves of the table `src` at the paths of `D` have been copied to the table `copy₀`. -/
structure CopiedLeaves (P : ℕ → SimplePte → Prop) (own deep : SimplePte → Bool) (src : Pfn)
    (h₀ : PhysMem A) (copy₀ : Option Pfn) (D : Set (ℕ → Key)) (s : UmPgTblMgmt.CopyState A) :
    Prop where
  /-- The copy has been built from the table it started with. -/
  builds : pageTables.Builds own P pdptLevel h₀ copy₀ s.2 s.1
  /-- The dirty leaves have copies. -/
  copied : ∀ w ∈ D, ∀ e, slotLeaf h₀ (some src) w = some e → e.dirty = true →
    ∃ e', slotLeaf s.2 s.1 w = some e' ∧ CopyOf deep h₀ s.2 s.1 e e'
  /-- Everywhere else the table is as before. -/
  kept : ∀ w, (w ∈ D → ∀ e, slotLeaf h₀ (some src) w = some e → e.dirty = false) →
    slotLeaf s.2 s.1 w = slotLeaf h₀ copy₀ w
  /-- A new table that shares all its pages has everything that has been allocated. -/
  claims : (∀ e, deep e = false) → copy₀ = none → pageTables.Claims own pdptLevel h₀ none s.2 s.1
  /-- The deep copies of different pages are on different frames. -/
  distinct : ∀ w ∈ D, ∀ w' ∈ D, DeepAt deep src h₀ w → DeepAt deep src h₀ w' →
    (slotLeaf s.2 s.1 w).map SimplePte.frame = (slotLeaf s.2 s.1 w').map SimplePte.frame →
    SamePage w w'
  /-- There is still no table if there was none and there was nothing to copy. -/
  null : copy₀ = none → (∀ w ∈ D, ∀ e, slotLeaf h₀ (some src) w = some e → e.dirty = false) →
    s.1 = none

/-- What a copy needs of its source: the table and the pages that are copied deep are in use and
apart from the pages of the table copied to. -/
structure CopySource (P : ℕ → SimplePte → Prop) (own deep : SimplePte → Bool) (src : Pfn)
    (h₀ : PhysMem A) (copy₀ : Option Pfn) : Prop where
  /-- Frames that are shared are not owned. -/
  rw_of_own : ∀ e, own e = true → e.rw = true
  /-- The source is a table without large pages. -/
  source : pageTables.Mappable own P pdptLevel h₀ src
  /-- So is the table copied to, if there is one. -/
  copy : ∀ r, copy₀ = some r → pageTables.Mappable own P pdptLevel h₀ r
  /-- The pages of the source are not pages of the copy. -/
  pages_apart : ∀ f ∈ slotPages h₀ (some src), f ∉ slotPages h₀ copy₀
  /-- The frames that are copied are in use. -/
  used : ∀ w e, slotLeaf h₀ (some src) w = some e → deep e = true → ¬ h₀.IsFree e.frame
  /-- They are not pages of the copy. -/
  frames_apart : ∀ w e, slotLeaf h₀ (some src) w = some e → deep e = true →
    e.frame ∉ slotPages h₀ copy₀

/-- The dirty leaves of a slot page table have been copied. -/
abbrev Copied (own deep : SimplePte → Bool) (src : Pfn) (h₀ : PhysMem A) (copy₀ : Option Pfn)
    (D : Set (ℕ → Key)) (s : UmPgTblMgmt.CopyState A) : Prop :=
  CopiedLeaves SlotEntry own deep src h₀ copy₀ D s

/-- A slot page table may be copied. -/
abbrev Copyable (own deep : SimplePte → Bool) (src : Pfn) (h₀ : PhysMem A) (copy₀ : Option Pfn) :
    Prop :=
  CopySource SlotEntry own deep src h₀ copy₀

section Step

variable {P : ℕ → SimplePte → Prop} [EntryKind P] {own deep : SimplePte → Bool} {src : Pfn}
  {h₀ : PhysMem A} {copy₀ : Option Pfn}
  {D : Set (ℕ → Key)} {s : UmPgTblMgmt.CopyState A} {idx w : ℕ → Key} {e e' : SimplePte}

omit [EntryKind P] in
/-- A copied page keeps its copy while the table is built on. -/
theorem CopyOf.builds {copy : Option Pfn} {h : PhysMem A}
    (hbuilds : pageTables.Builds own P pdptLevel s.2 s.1 h copy)
    (hcopy : CopyOf deep h₀ s.2 s.1 e e') : CopyOf deep h₀ h copy e e' where
  dirty := hcopy.dirty
  a := hcopy.a
  xd := hcopy.xd
  rw := hcopy.rw
  own := by
    intro hdeep
    obtain ⟨hfree, hused, hpage, hmem⟩ := hcopy.own hdeep
    refine ⟨hfree, fun hf => hused (hbuilds.isFree _ hf), fun hf => ?_,
      (hbuilds.page_eq _ hused hpage).trans hmem⟩
    exact (hbuilds.nodes_subset _ hf).elim hpage hused
  shared := hcopy.shared

omit [EntryKind P] in
/-- A new table that shares all its pages can write none of them. -/
theorem CopiedLeaves.rw_of_shared (hs : CopiedLeaves P own deep src h₀ none D s)
    (hshared : ∀ e, deep e = false)
    (hleaf : slotLeaf s.2 s.1 w = some e') : e'.rw = false := by
  by_cases hclean : w ∈ D → ∀ e, slotLeaf h₀ (some src) w = some e → e.dirty = false
  · rw [hs.kept w hclean] at hleaf
    cases hleaf
  · push Not at hclean
    obtain ⟨hw, e, he, hdirty⟩ := hclean
    obtain ⟨e'', he'', hcopy⟩ := hs.copied w hw e he (by simpa using hdirty)
    obtain rfl := Option.some.inj (hleaf.symm.trans he'')
    rw [hcopy.rw, hshared]

omit [EntryKind P] in
/-- A dirty leaf has been entered at its path. -/
theorem CopiedLeaves.insert (howns : ∀ e, own e = true → e.rw = true)
    (hs : CopiedLeaves P own deep src h₀ copy₀ D s)
    (hsrc : slotLeaf h₀ (some src) idx = some e) (hdirty : e.dirty = true) {copy : Pfn}
    {h : PhysMem A} (hbuilds : pageTables.Builds own P pdptLevel s.2 s.1 h (some copy))
    (hnew : ∀ w, SamePage w idx → slotLeaf h (some copy) w = some e')
    (hold : ∀ w, ¬ SamePage w idx → slotLeaf h (some copy) w = slotLeaf s.2 s.1 w)
    (hcopy : CopyOf deep h₀ h (some copy) e e') (hfresh : deep e = true → s.2.IsFree e'.frame)
    (hclaims : deep e = false → (∀ e₀, slotLeaf s.2 s.1 idx = some e₀ → own e₀ = false) →
      pageTables.Claims own pdptLevel s.2 s.1 h (some copy)) :
    CopiedLeaves P own deep src h₀ copy₀ (D ∪ {w | SamePage w idx}) (some copy, h) where
  claims := by
    rintro hshared rfl
    refine (hs.claims hshared rfl).trans (hclaims (hshared e) fun e₀ he₀ => ?_)
    by_contra hown
    have hrw := howns e₀ (by simpa using hown)
    rw [hs.rw_of_shared hshared he₀] at hrw
    cases hrw
  builds := hs.builds.trans hbuilds
  null := by
    intro _ hclean
    have hidx := hclean idx (Or.inr fun _ _ _ => rfl) e hsrc
    rw [hdirty] at hidx
    cases hidx
  distinct := by
    have hapart : ∀ w, w ∈ D → ¬ SamePage w idx → DeepAt deep src h₀ w → DeepAt deep src h₀ idx →
        (slotLeaf h (some copy) w).map SimplePte.frame ≠ some e'.frame := by
      rintro w hw hother ⟨e₁, he₁, hdirty₁, hdeep₁⟩ ⟨e₂, he₂, -, hdeep₂⟩ hframe
      obtain rfl := Option.some.inj (hsrc.symm.trans he₂)
      obtain ⟨e₁', he₁', hcopy₁⟩ := hs.copied w hw e₁ he₁ hdirty₁
      rw [hold w hother, he₁'] at hframe
      exact (hcopy₁.own hdeep₁).2.1 (Option.some.inj hframe ▸ hfresh hdeep₂)
    have hdeepAt : ∀ w, SamePage w idx → DeepAt deep src h₀ w → DeepAt deep src h₀ idx :=
      fun w hw hdeep => hdeep.imp fun _ h => ⟨(slotLeaf_of_samePage hw).symm.trans h.1, h.2⟩
    intro w hw w' hw' hdeep hdeep' hframe
    by_cases hsame : SamePage w idx
    · by_cases hsame' : SamePage w' idx
      · exact fun i h1 h3 => (hsame i h1 h3).trans (hsame' i h1 h3).symm
      · rw [hnew w hsame] at hframe
        exact absurd hframe.symm
          (hapart w' (hw'.resolve_right hsame') hsame' hdeep' (hdeepAt w hsame hdeep))
    · by_cases hsame' : SamePage w' idx
      · rw [hnew w' hsame'] at hframe
        exact absurd hframe
          (hapart w (hw.resolve_right hsame) hsame hdeep (hdeepAt w' hsame' hdeep'))
      · rw [hold w hsame, hold w' hsame'] at hframe
        exact hs.distinct w (hw.resolve_right hsame) w' (hw'.resolve_right hsame') hdeep hdeep' hframe
  copied := by
    intro w hw e₁ he₁ hdirty₁
    by_cases hsame : SamePage w idx
    · obtain rfl := Option.some.inj (hsrc.symm.trans ((slotLeaf_of_samePage hsame).symm.trans he₁))
      exact ⟨e', hnew w hsame, hcopy⟩
    · obtain ⟨e₁', he₁', hcopy₁⟩ := hs.copied w (hw.resolve_right hsame) e₁ he₁ hdirty₁
      exact ⟨e₁', (hold w hsame).trans he₁', hcopy₁.builds hbuilds⟩
  kept := by
    intro w hw
    by_cases hsame : SamePage w idx
    · have hclean := hw (Or.inr hsame) e ((slotLeaf_of_samePage hsame).trans hsrc)
      rw [hdirty] at hclean
      cases hclean
    · exact (hold w hsame).trans (hs.kept w fun hD => hw (Or.inl hD))

omit [EntryKind P] in
/-- A clean leaf is passed over. -/
theorem CopiedLeaves.skip (hs : CopiedLeaves P own deep src h₀ copy₀ D s)
    (hsrc : slotLeaf h₀ (some src) idx = some e) (hclean : e.dirty = false) :
    CopiedLeaves P own deep src h₀ copy₀ (D ∪ {w | SamePage w idx}) s where
  claims := hs.claims
  builds := hs.builds
  null := fun hnone hD => hs.null hnone fun w hw => hD w (Or.inl hw)
  distinct := by
    have hvisited : ∀ w, w ∈ D ∪ {w | SamePage w idx} → DeepAt deep src h₀ w → w ∈ D := by
      rintro w (hw | hw) ⟨e₁, he₁, hdirty₁, -⟩
      · exact hw
      · obtain rfl := Option.some.inj (hsrc.symm.trans ((slotLeaf_of_samePage hw).symm.trans he₁))
        rw [hclean] at hdirty₁
        cases hdirty₁
    exact fun w hw w' hw' hdeep hdeep' =>
      hs.distinct w (hvisited w hw hdeep) w' (hvisited w' hw' hdeep') hdeep hdeep'
  copied := by
    rintro w (hw | hw) e₁ he₁ hdirty₁
    · exact hs.copied w hw e₁ he₁ hdirty₁
    · obtain rfl := Option.some.inj (hsrc.symm.trans ((slotLeaf_of_samePage hw).symm.trans he₁))
      rw [hclean] at hdirty₁
      cases hdirty₁
  kept := fun w hw => hs.kept w fun hD => hw (Or.inl hD)

/-- The path of a reconstructed address leads to the page of the keys it was made of. -/
theorem samePage_reconstruct (idx : ℕ → Key) :
    SamePage (reconstructLinAddrPgFromOffsets idx).path idx :=
  fun _ h1 h3 => index_reconstruct idx h1 (Nat.le_succ_of_le h3)

theorem samePage_path_iff : SamePage w (reconstructLinAddrPgFromOffsets idx).path ↔
    SamePage w idx := by
  have hpath := samePage_reconstruct idx
  exact ⟨fun h i h1 h3 => (h i h1 h3).trans (hpath i h1 h3),
    fun h i h1 h3 => (h i h1 h3).trans (hpath i h1 h3).symm⟩

end Step

namespace UmPgTblMgmt

/-- `copyDirtyPage` of a 4K page. -/
theorem copyDirtyPage_filled (src : Pfn) (h : PhysMem A) :
    Outcome (copyDirtyPage src tblLevel h) (fun p => h.Filled p.1 (h.mem src) p.2) (· = .kbugon) := by
  refine outcome_bind.mpr (Heap.alloc_outcome rfl fun f h₁ halloc => ?_)
  have hfilled := halloc.filled (p := h.mem src)
  simpa [halloc.mem] using hfilled

section Leaf

variable {P : ℕ → SimplePte → Prop} [EntryKind P] {own deep : SimplePte → Bool} {src : Pfn}
  {h₀ : PhysMem A} {copy₀ : Option Pfn}
  {D : Set (ℕ → Key)} {s : CopyState A} {idx w : ℕ → Key} {e : SimplePte}

/-- A dirty page is shared. -/
theorem cowLeaf_outcome (howns : ∀ e, own e = true → e.rw = true)
    (hs : CopiedLeaves P own deep src h₀ copy₀ D s)
    (hsrc : slotLeaf h₀ (some src) idx = some e) (hdeep : deep e = false) :
    Outcome (cowLeaf e tblLevel idx s)
      (CopiedLeaves P own deep src h₀ copy₀ (D ∪ {w | SamePage w idx}))
      (· = .kbugon) := by
  unfold cowLeaf
  cases hdirty : e.dirty with
  | false => exact hs.skip hsrc hdirty
  | true =>
    simp only [if_true]
    refine outcome_bind.mpr ((mapAt_slot hs.builds.mappable (fun _ hf => hf) (fun _ _ => rfl) rfl
      (SimplePte.sel_setPte ..) (SimplePte.a_setPte ..) ?_).mono ?_ fun _ h => h)
    · intro hown
      have hrw := howns _ hown
      rw [SimplePte.rw_setPte] at hrw
      cases hrw
    · rintro ⟨copy, h⟩ hmapped
      refine hs.insert howns hsrc hdirty hmapped.builds
        (fun w hw => hmapped.entered w (samePage_path_iff.mpr hw))
        (fun w hw => hmapped.kept w fun hw' => hw (samePage_path_iff.mp hw')) ?_
        (fun hd => absurd (hd.symm.trans hdeep) (by decide))
        fun _ hover => hmapped.claims (fun e₀ he₀ => hover e₀ ?_)
          fun f hfree hused => absurd hfree hused
      · exact ⟨SimplePte.dirty_setPte .., SimplePte.a_setPte .., SimplePte.xd_setPte ..,
          (SimplePte.rw_setPte ..).trans
          hdeep.symm, fun hd => absurd (hd.symm.trans hdeep) (by decide),
          fun _ => SimplePte.frame_setPte ..⟩
      · rwa [slotLeaf_of_samePage (samePage_reconstruct idx)] at he₀

/-- A dirty page is copied. -/
theorem copyDirtyLeaf_outcome (hcopyable : CopySource P own deep src h₀ copy₀)
    (hs : CopiedLeaves P own deep src h₀ copy₀ D s)
    (hsrc : slotLeaf h₀ (some src) idx = some e) (hdeep : deep e = true) :
    Outcome (copyDirtyLeaf e tblLevel idx s)
      (CopiedLeaves P own deep src h₀ copy₀ (D ∪ {w | SamePage w idx})) (· = .kbugon) := by
  unfold copyDirtyLeaf
  cases hdirty : e.dirty with
  | false => exact hs.skip hsrc hdirty
  | true =>
    simp only [if_true]
    refine outcome_bind.mpr ((copyDirtyPage_filled _ _).mono ?_ fun _ h => h)
    rintro ⟨phys, h₁⟩ hfilled
    have hused : ¬ h₁.IsFree phys := fun hfree => ((hfilled.isFree phys).mp hfree).2 rfl
    refine outcome_bind.mpr ((mapAt_slot hs.builds.mappable (fun f hf => ((hfilled.isFree f).mp hf).1)
      (fun f hf => hfilled.mem_eq_of_used hf) hfilled.freeCalls (SimplePte.sel_setPte ..)
      (SimplePte.a_setPte ..) ?_).mono ?_ fun _ h => h)
    · intro _
      rw [SimplePte.frame_setPte]
      exact ⟨hfilled.free, hused⟩
    · rintro ⟨copy, h⟩ hmapped
      refine hs.insert hcopyable.rw_of_own hsrc hdirty hmapped.builds
        (fun w hw => hmapped.entered w (samePage_path_iff.mpr hw))
        (fun w hw => hmapped.kept w fun hw' => hw (samePage_path_iff.mp hw')) ?_
        (fun _ => (SimplePte.frame_setPte ..).symm ▸ hfilled.free)
        fun hshared => absurd (hshared.symm.trans hdeep) (by decide)
      -- the frame was free, and is no page of the table
      have hpage : phys ∉ slotPages s.2 s.1 := by
        rintro ⟨r, hr, hf⟩
        exact (hs.builds.mappable r hr).used phys (nodes_subset_frames _ _ hf) hfilled.free
      have hcontent := hmapped.content
      rw [SimplePte.frame_setPte] at hcontent
      obtain ⟨hmem, hpage'⟩ := hcontent hused hpage
      refine ⟨SimplePte.dirty_setPte .., SimplePte.a_setPte .., SimplePte.xd_setPte ..,
          (SimplePte.rw_setPte ..).trans
        hdeep.symm, fun _ => ?_, fun hd => absurd (hd.symm.trans hdeep) (by decide)⟩
      rw [SimplePte.frame_setPte]
      refine ⟨hs.builds.isFree phys hfilled.free, fun hfree => hused (hmapped.isFree _ hfree),
        hpage', ?_⟩
      rw [hmem, hfilled.mem_self]
      exact hs.builds.page_eq _ (hcopyable.used idx e hsrc hdeep)
        (hcopyable.frames_apart idx e hsrc hdeep)

/-- The rule of the copy walkers, with an invariant of the caller's.  No page has been visited before. -/
theorem walkCopy_outcome_with {leaf : SimplePte → ℕ → (ℕ → Key) → CopyState A → Except Stop (CopyState A)}
    {J : CopyState A → Prop} (hcopyable : CopySource P own deep src h₀ copy₀) (hJ : J (copy₀, h₀))
    (hleaf : ∀ D s idx e, CopiedLeaves P own deep src h₀ copy₀ D s → J s → idx ∉ D →
      slotLeaf h₀ (some src) idx = some e →
      Outcome (leaf e tblLevel idx s)
        (fun s' => CopiedLeaves P own deep src h₀ copy₀ (D ∪ {w | SamePage w idx}) s' ∧ J s')
        (· = .kbugon)) :
    Outcome (walkCopy leaf src copy₀ pdptLevel h₀)
      (fun s => CopiedLeaves P own deep src h₀ copy₀ Set.univ s ∧ J s) (· = .kbugon) := by
  have hsource : ∀ r, some src = some r → pageTables.Mappable own P pdptLevel h₀ r :=
    fun r hr => Option.some.inj hr ▸ hcopyable.source
  unfold walkCopy
  refine outcome_bind.mpr ((walkLeaves_outcome (m := h₀.mem)
    (I := fun D s => CopiedLeaves P own deep src h₀ copy₀ D s ∧ J s)
    (fun D s hs f hf => ?_) (fun D D' s hD hs => ?_) (fun D s idx l e _ hl hidx hs => ?_) ?_).mono
    (fun st hst => hst) fun _ h => h)
  · refine hs.1.builds.page_eq f ?_ (hcopyable.pages_apart f ⟨src, rfl, hf⟩)
    exact hcopyable.source.used f (nodes_subset_frames _ _ hf)
  · obtain ⟨hs, hJs⟩ := hs
    have hmem : ∀ w e, slotLeaf h₀ (some src) w = some e → (w ∈ D ↔ w ∈ D') := by
      intro w e he
      obtain ⟨t, ht, hw⟩ := (slotLeaf_eq_some hsource).mp he
      refine hD w ?_
      rw [Option.some.inj ht, hw]
      exact Option.some_ne_none _
    have hdeepAt : ∀ w, DeepAt deep src h₀ w → (w ∈ D ↔ w ∈ D') :=
      fun w ⟨e, he, _⟩ => hmem w e he
    refine ⟨⟨hs.builds, fun w hw e he => hs.copied w ((hmem w e he).mpr hw) e he, fun w hw => ?_,
      hs.claims, fun w hw w' hw' hdeep hdeep' => ?_, fun hnone hclean => ?_⟩, hJs⟩
    · exact hs.kept w fun hw' e he => hw ((hmem w e he).mp hw') e he
    · exact hs.distinct w ((hdeepAt w hdeep).mpr hw) w' ((hdeepAt w' hdeep').mpr hw') hdeep hdeep'
    · exact hs.null hnone fun w hw e he => hclean w ((hmem w e he).mp hw) e he
  · obtain rfl : l = 1 :=
      EntryKind.level l e (Entries.leaf hcopyable.source.entries hl) (leaf_spec hl).2.2.2
    exact hleaf D s idx e hs.1 hs.2 hidx ((slotLeaf_eq_some hsource).mpr ⟨src, rfl, hl⟩)
  · exact ⟨⟨Builds.refl hcopyable.copy, fun w hw => absurd hw (Set.notMem_empty w), fun _ _ => rfl,
      fun _ hnone => by subst hnone; exact Claims.refl h₀ none,
      fun w hw => absurd hw (Set.notMem_empty w), fun hnone _ => hnone⟩, hJ⟩

/-- The rule of the copy walkers. -/
theorem walkCopy_outcome {leaf : SimplePte → ℕ → (ℕ → Key) → CopyState A → Except Stop (CopyState A)}
    (hcopyable : CopySource P own deep src h₀ copy₀)
    (hleaf : ∀ D s idx e, CopiedLeaves P own deep src h₀ copy₀ D s →
      slotLeaf h₀ (some src) idx = some e →
      Outcome (leaf e tblLevel idx s)
        (CopiedLeaves P own deep src h₀ copy₀ (D ∪ {w | SamePage w idx}))
        (· = .kbugon)) :
    Outcome (walkCopy leaf src copy₀ pdptLevel h₀) (CopiedLeaves P own deep src h₀ copy₀ Set.univ)
      (· = .kbugon) := by
  refine (walkCopy_outcome_with (J := fun _ => True) hcopyable trivial
    fun D s idx e hs _ _ hsrc => ?_).mono (fun s hs => hs.1) fun _ h => h
  exact (hleaf D s idx e hs hsrc).mono (fun s' hs' => ⟨hs', trivial⟩) fun _ h => h

/-- `walkPgTblCOW` shares every dirty page. -/
theorem walkPgTblCOW_outcome (hcopyable : CopySource P own (fun _ => false) src h₀ copy₀) :
    Outcome (walkPgTblCOW src copy₀ pdptLevel h₀)
      (CopiedLeaves P own (fun _ => false) src h₀ copy₀ Set.univ) (· = .kbugon) :=
  walkCopy_outcome hcopyable fun _ _ _ _ hs hsrc => cowLeaf_outcome hcopyable.rw_of_own hs hsrc rfl

/-- `walkPgTblCopyDirty` copies every dirty page. -/
theorem walkPgTblCopyDirty_outcome (hcopyable : CopySource P own (fun _ => true) src h₀ copy₀) :
    Outcome (walkPgTblCopyDirty src copy₀ pdptLevel h₀)
      (CopiedLeaves P own (fun _ => true) src h₀ copy₀ Set.univ) (· = .kbugon) :=
  walkCopy_outcome hcopyable fun _ _ _ _ hs hsrc => copyDirtyLeaf_outcome hcopyable hs hsrc rfl

/-- What `walkPgTblCopyDirtyCOW` does at a leaf: it copies the page when it is writable. -/
theorem copyDirtyCOWLeaf_outcome (hcopyable : CopySource P own SimplePte.rw src h₀ copy₀)
    (hs : CopiedLeaves P own SimplePte.rw src h₀ copy₀ D s)
    (hsrc : slotLeaf h₀ (some src) idx = some e) :
    Outcome (copyDirtyCOWLeaf e tblLevel idx s)
      (CopiedLeaves P own SimplePte.rw src h₀ copy₀ (D ∪ {w | SamePage w idx})) (· = .kbugon) := by
  unfold copyDirtyCOWLeaf
  cases hrw : e.rw with
  | true => exact copyDirtyLeaf_outcome hcopyable hs hsrc hrw
  | false => exact cowLeaf_outcome hcopyable.rw_of_own hs hsrc hrw

/-- `walkPgTblCopyDirtyCOW` copies the dirty pages with write access and shares the others. -/
theorem walkPgTblCopyDirtyCOW_outcome (hcopyable : CopySource P own SimplePte.rw src h₀ copy₀) :
    Outcome (walkPgTblCopyDirtyCOW src copy₀ pdptLevel h₀)
      (CopiedLeaves P own SimplePte.rw src h₀ copy₀ Set.univ) (· = .kbugon) :=
  walkCopy_outcome hcopyable fun _ _ _ _ hs hsrc => copyDirtyCOWLeaf_outcome hcopyable hs hsrc

end Leaf

end UmPgTblMgmt

end Umm
