import Umm.Memory.Sharing

/-!
# What the pages of an instance hold

`pageContent` is the content of a page of the slot as an instance sees it: that of the frame its leaf
maps, or the initial one when it has no leaf.  A step changes it for the page that a guest writes, and
for nothing else; a copy has the content of what it was made from.
-/

namespace Umm

open Foundations Foundations.Layout

variable {A : Allocator Pfn} {elf : Set Pfn}

/-- Two addresses of the slot are on the same page exactly when their paths lead to it. -/
theorem samePage_iff_pageDown {va wa : LinAddr} (hva : validAddress va = true)
    (hwa : validAddress wa = true) : SamePage va.path wa.path ↔ va.pageDown = wa.pageDown := by
  refine ⟨fun hsame => LinAddr.pageDown_eq_of_index hva hwa hsame, fun heq lvl _ _ => ?_⟩
  rw [LinAddr.path, ← va.index_pageDown, heq, wa.index_pageDown]
  rfl

namespace Sys

variable {s s' : Sys A elf} {c : UmiCore} {id j : SvId} {sv : Sv elf} {root' : Option Pfn}
  {vaddr wa : LinAddr} {e : SimplePte}

/-- The content of a page. -/
def pageContent (s : Sys A elf) (id : SvId) (image : Image elf) (va : LinAddr) : Option Page :=
  match slotLeaf s.h (s.table id) va.path with
  | some e => some (s.h.mem e.frame)
  | none => initialPage image.regions s.h.mem va.pageDown

theorem pageContent_of_leaf {image : Image elf}
    (hleaf : slotLeaf s.h (s.table id) wa.path = some e) :
    s.pageContent id image wa = some (s.h.mem e.frame) := by
  rw [pageContent, hleaf]

theorem pageContent_of_no_leaf {image : Image elf}
    (hleaf : slotLeaf s.h (s.table id) wa.path = none) :
    s.pageContent id image wa = initialPage image.regions s.h.mem wa.pageDown := by
  rw [pageContent, hleaf]

/-- A clean page has its initial content. -/
def Clean (s : Sys A elf) : Prop :=
  ∀ id sv va e, validAddress va = true → s.svs id = some sv →
    slotLeaf s.h (s.table id) va.path = some e → e.dirty = false →
    initialPage sv.image.regions s.h.mem va.pageDown = some (s.h.mem e.frame)

/-! ## Frames that a step does not write -/

/-- The frame of a leaf is in use, and is no page of the table of an instance, nor a frame of it when
the leaf is not one of the instance's own. -/
theorem Shared.frame_apart (hshared : s.Shared) (hwf : s.Wf) {v : ℕ → Key}
    (hsv : s.svs j = some sv) (hleaf : slotLeaf s.h (s.table j) v = some e)
    (hid : ∀ svi, s.svs id = some svi → svi.isInstance = true) :
    ¬ s.h.IsFree e.frame ∧ e.frame ∉ slotPages s.h (s.table id) ∧
      (j ≠ id ∨ e.rw = false → e.frame ∉ slotFrames s.h (s.table id)) := by
  have hmappable := hwf.apart.mappable
  -- a frame that another table has
  have hother : ∀ {a}, a ≠ id → e.frame ∈ slotFrames s.h (s.table a) →
      ¬ s.h.IsFree e.frame ∧ e.frame ∉ slotFrames s.h (s.table id) := fun ha hf =>
    ⟨hwf.apart.used hf, fun hf' => Set.disjoint_left.mp (hwf.apart.disjoint _ _ ha) hf hf'⟩
  cases hrw : e.rw with
  | true =>
    have hframe := frame_mem_slotFrames (hmappable j) hleaf hrw
    refine ⟨hwf.apart.used hframe, ?_, fun hcase => ?_⟩
    · by_cases hj : j = id
      · subst hj
        exact frame_not_mem_slotPages (hmappable j) hleaf hrw
      · exact fun hf => (hother hj hframe).2 (nodes_subset_held hf)
    · rcases hcase with hj | hrw'
      · exact (hother hj hframe).2
      · cases hrw'
  | false =>
    rcases hshared j sv v e hsv hleaf hrw with ⟨helf, -⟩ | ⟨-, a, -, sva, hsva, hisSv, howns⟩
    · have hnot : e.frame ∉ slotFrames s.h (s.table id) :=
        fun hf => hwf.apart.not_pinned id e.frame hf helf
      exact ⟨hwf.apart.used_of_pinned e.frame helf, fun hf => hnot (nodes_subset_held hf),
        fun _ => hnot⟩
    · obtain ⟨w, e', hleaf', hrw', hframe⟩ := howns
      have hne : a ≠ id := by
        rintro rfl
        rw [hid sva hsva] at hisSv
        cases hisSv
      obtain ⟨hused, hnot⟩ := hother hne (hframe ▸ frame_mem_slotFrames (hmappable a) hleaf' hrw')
      exact ⟨hused, fun hf => hnot (nodes_subset_held hf), fun _ => hnot⟩

/-- The initial content of a page does not change. -/
theorem Effect.initialPage_eq (heffect : s.Effect id root' s') (hwf : s.Wf) (image : Image elf)
    (va : LinAddr) : initialPage image.regions s'.h.mem va.pageDown =
      initialPage image.regions s.h.mem va.pageDown :=
  initialPage_congr va.pageDown_pageDown fun _ hf => hwf.apart.pinned_mem_eq heffect.evolves hf

/-- The frames of the others are not written. -/
theorem Effect.frame_mem_eq (heffect : s.Effect id root' s') (hwf : s.Wf) (hshared : s.Shared)
    {v : ℕ → Key} (hsv : s.svs j = some sv) (hleaf : slotLeaf s.h (s.table j) v = some e)
    (hj : j ≠ id) : s'.h.mem e.frame = s.h.mem e.frame := by
  obtain ⟨hused, -, hnot⟩ := hshared.frame_apart hwf hsv hleaf heffect.isInstance
  exact heffect.evolves.mem_eq _ hused (hnot (Or.inl hj))

/-- The others see what they saw. -/
theorem Effect.pageContent_eq (heffect : s.Effect id root' s') (hwf : s.Wf) (hshared : s.Shared)
    (hsv : s.svs j = some sv) (hj : j ≠ id) (image : Image elf) (va : LinAddr) :
    s'.pageContent j image va = s.pageContent j image va := by
  cases hleaf : slotLeaf s.h (s.table j) va.path with
  | none =>
    rw [pageContent_of_no_leaf hleaf, pageContent_of_no_leaf, heffect.initialPage_eq hwf]
    rw [heffect.slotLeaf_eq hwf hj, hleaf]
  | some e =>
    rw [pageContent_of_leaf hleaf, pageContent_of_leaf (e := e),
      heffect.frame_mem_eq hwf hshared hsv hleaf hj]
    rw [heffect.slotLeaf_eq hwf hj, hleaf]

/-- An effect keeps clean pages clean when the table that it is on does. -/
theorem Effect.clean (heffect : s.Effect id root' s') (hwf : s.Wf) (hshared : s.Shared)
    (hclean : s.Clean)
    (hself : ∀ sv va e, validAddress va = true → s'.svs id = some sv →
      slotLeaf s'.h root' va.path = some e → e.dirty = false →
      initialPage sv.image.regions s'.h.mem va.pageDown = some (s'.h.mem e.frame)) :
    s'.Clean := by
  intro j sv va e hva hsv hleaf hdirty
  by_cases hj : j = id
  · subst hj
    rw [heffect.table_self] at hleaf
    exact hself sv va e hva hsv hleaf hdirty
  · rw [heffect.svs_of_ne j hj] at hsv
    rw [heffect.slotLeaf_eq hwf hj] at hleaf
    rw [heffect.initialPage_eq hwf, heffect.frame_mem_eq hwf hshared hsv hleaf hj]
    exact hclean j sv va e hva hsv hleaf hdirty

/-! ## Accesses -/

section Access

variable {ec : PgFaultErrorCode} {wr : Bool} {value mask : Word}

/-- A leaf that a fault keeps keeps its content. -/
theorem Faulted.frame_mem_eq (hwf : s.Wf) (hshared : s.Shared) (hsv : s.svs id = some sv)
    (hl : sv.loadedOn = some c) (hfaulted : s.Faulted c sv vaddr ec s') {v : ℕ → Key}
    (hleaf : slotLeaf s.h (s.table id) v = some e) : s'.h.mem e.frame = s.h.mem e.frame := by
  have hisInstance : ∀ svi, s.svs id = some svi → svi.isInstance = true := by
    intro svi hsvi
    obtain rfl := Option.some.inj (hsv.symm.trans hsvi)
    exact hwf.isInstance id sv c hsv hl
  obtain ⟨hused, hpage, -⟩ := hshared.frame_apart hwf hsv hleaf hisInstance
  rw [table_of_loaded hsv hl] at hpage
  exact hfaulted.builds.page_eq e.frame hused hpage

/-- A fault changes no content. -/
theorem Faulted.pageContent_eq (hwf : s.Wf) (hshared : s.Shared) (hid : s.activeUmi c = some id)
    (hsv : s.svs id = some sv) (hl : sv.loadedOn = some c) (hvalid : validAddress vaddr = true)
    (hfaulted : s.Faulted c sv vaddr ec s')
    (hnone : (ec.p && ec.wr) = false → slotLeaf s.h (s.getSlotPDPTRoot c) vaddr.path = none)
    {va : LinAddr} (hva : validAddress va = true) :
    s'.pageContent id sv.image va = s.pageContent id sv.image va := by
  have heffect := hfaulted.effect hwf hid hsv hl
  have htable := table_of_loaded hsv hl
  by_cases hsame : SamePage va.path vaddr.path
  · obtain ⟨e, hentered, -, -, hcontent⟩ := hfaulted.entered
    have hpage := (samePage_iff_pageDown hva hvalid).mp hsame
    have hold : slotLeaf s.h (s.table id) va.path =
        slotLeaf s.h (s.getSlotPDPTRoot c) vaddr.path := by
      rw [htable, slotLeaf_of_samePage hsame]
    rw [pageContent_of_leaf (by rw [heffect.table_self]; exact hentered va.path hsame)]
    split_ifs at hcontent with hec
    · obtain ⟨e₀, he₀, hmem⟩ := hcontent
      rw [pageContent_of_leaf (hold.trans he₀), hmem]
    · rw [pageContent_of_no_leaf (hold.trans (hnone (by simpa using hec))), hpage, hcontent]
  · have hkept : slotLeaf s'.h (s'.table id) va.path = slotLeaf s.h (s.table id) va.path := by
      rw [heffect.table_self, htable]
      exact hfaulted.kept va.path hsame
    cases hleaf : slotLeaf s.h (s.table id) va.path with
    | none =>
      rw [pageContent_of_no_leaf hleaf, pageContent_of_no_leaf (hkept.trans hleaf),
        heffect.initialPage_eq hwf]
    | some e =>
      rw [pageContent_of_leaf hleaf, pageContent_of_leaf (hkept.trans hleaf),
        hfaulted.frame_mem_eq hwf hshared hsv hl hleaf]

theorem Faulted.clean (hwf : s.Wf) (hshared : s.Shared) (hclean : s.Clean)
    (hid : s.activeUmi c = some id) (hsv : s.svs id = some sv) (hl : sv.loadedOn = some c)
    (hvalid : validAddress vaddr = true) (hfaulted : s.Faulted c sv vaddr ec s') : s'.Clean := by
  have heffect := hfaulted.effect hwf hid hsv hl
  refine heffect.clean hwf hshared hclean fun sv' va e hva hsv' hleaf hdirty => ?_
  rw [hfaulted.svs] at hsv'
  obtain rfl := Option.some.inj (hsv.symm.trans hsv')
  rw [heffect.initialPage_eq hwf]
  by_cases hsame : SamePage va.path vaddr.path
  · obtain ⟨e', hentered, hdirty', -, hcontent⟩ := hfaulted.entered
    obtain rfl := Option.some.inj ((hentered va.path hsame).symm.trans hleaf)
    rw [if_neg (by rw [← hdirty', hdirty, Bool.and_false]; decide)] at hcontent
    rw [(samePage_iff_pageDown hva hvalid).mp hsame, hcontent]
  · rw [hfaulted.kept va.path hsame, ← table_of_loaded hsv hl] at hleaf
    rw [hfaulted.frame_mem_eq hwf hshared hsv hl hleaf]
    exact hclean id sv va e hva hsv hleaf hdirty

/-- An access changes no content. -/
theorem Accessed.pageContent_eq (hwf : s.Wf) (hshared : s.Shared) (hid : s.activeUmi c = some id)
    (hsv : s.svs id = some sv) (hl : sv.loadedOn = some c) (hvalid : validAddress vaddr = true)
    (haccessed : s.Accessed c sv vaddr wr e s') {va : LinAddr} (hva : validAddress va = true) :
    s'.pageContent id sv.image va = s.pageContent id sv.image va := by
  rcases haccessed.fault with rfl | ⟨ec, hfaulted, hnone, -⟩
  · rfl
  · exact hfaulted.pageContent_eq hwf hshared hid hsv hl hvalid hnone hva

theorem Accessed.clean (hwf : s.Wf) (hshared : s.Shared) (hclean : s.Clean)
    (hid : s.activeUmi c = some id) (hsv : s.svs id = some sv) (hl : sv.loadedOn = some c)
    (hvalid : validAddress vaddr = true) (haccessed : s.Accessed c sv vaddr wr e s') :
    s'.Clean := by
  rcases haccessed.fault with rfl | ⟨ec, hfaulted, -, -⟩
  · exact hclean
  · exact hfaulted.clean hwf hshared hclean hid hsv hl hvalid

/-- The store of a write does not touch the frames of other leaves of the table. -/
theorem Stored.frame_mem_eq (hwf : s.Wf) (hshared : s.Shared) (hsv : s.svs id = some sv)
    (hl : sv.loadedOn = some c) (hleaf : slotLeaf s.h (s.table id) vaddr.path = some e)
    (hrw : e.rw = true) (hstored : s.Stored c vaddr e value mask s') {v : ℕ → Key}
    {e' : SimplePte} (hleaf' : slotLeaf s.h (s.table id) v = some e')
    (hsame : ¬ SamePage v vaddr.path) : s'.h.mem e'.frame = s.h.mem e'.frame := by
  have hroot := hwf.apart.mappable id
  have hisInstance : ∀ svi, s.svs id = some svi → svi.isInstance = true := by
    intro svi hsvi
    obtain rfl := Option.some.inj (hsv.symm.trans hsvi)
    exact hwf.isInstance id sv c hsv hl
  obtain ⟨-, hpage, hnot⟩ := hshared.frame_apart hwf hsv hleaf' hisInstance
  rw [table_of_loaded hsv hl] at hpage
  refine hstored.mem_eq e'.frame (fun heq => ?_) hpage
  cases hrw' : e'.rw with
  | true => exact hsame (samePage_of_frame_eq hroot hleaf' hleaf hrw' hrw heq)
  | false => exact hnot (Or.inr hrw') (heq ▸ frame_mem_slotFrames hroot hleaf hrw)

/-- A write changes the word of the page that it is on. -/
theorem Stored.pageContent_self (hwf : s.Wf) (hsv : s.svs id = some sv)
    (hl : sv.loadedOn = some c) (hvalid : validAddress vaddr = true)
    (hstored : s.Stored c vaddr e value mask s') {image : Image elf} {va : LinAddr}
    (hva : validAddress va = true) (hpage : va.pageDown = vaddr.pageDown) :
    s'.pageContent id image va = some (Function.update (s.h.mem e.frame) vaddr.word
      (storeWord (s.h.mem e.frame vaddr.word) value mask)) := by
  have heffect := hstored.effect hwf hsv hl
  have hmarked := hstored.marked va.path ((samePage_iff_pageDown hva hvalid).mpr hpage)
  rw [pageContent_of_leaf (by rw [heffect.table_self]; exact hmarked)]
  have hframe : e.setDirty.frame = e.frame := SimplePte.pageTabEntToPfn_setDirty ..
  rw [hframe, hstored.written]

/-- A write changes no other page. -/
theorem Stored.pageContent_of_ne (hwf : s.Wf) (hshared : s.Shared) (hsv : s.svs id = some sv)
    (hl : sv.loadedOn = some c) (hleaf : slotLeaf s.h (s.table id) vaddr.path = some e)
    (hrw : e.rw = true) (hvalid : validAddress vaddr = true)
    (hstored : s.Stored c vaddr e value mask s') {image : Image elf} {va : LinAddr}
    (hva : validAddress va = true) (hpage : va.pageDown ≠ vaddr.pageDown) :
    s'.pageContent id image va = s.pageContent id image va := by
  have heffect := hstored.effect hwf hsv hl
  have hsame : ¬ SamePage va.path vaddr.path :=
    fun hsame => hpage ((samePage_iff_pageDown hva hvalid).mp hsame)
  have hkept : slotLeaf s'.h (s'.table id) va.path = slotLeaf s.h (s.table id) va.path := by
    rw [heffect.table_self, table_of_loaded hsv hl]
    exact hstored.kept va.path hsame
  cases hleaf' : slotLeaf s.h (s.table id) va.path with
  | none =>
    rw [pageContent_of_no_leaf hleaf', pageContent_of_no_leaf (hkept.trans hleaf'),
      heffect.initialPage_eq hwf]
  | some e' =>
    rw [pageContent_of_leaf hleaf', pageContent_of_leaf (hkept.trans hleaf'),
      hstored.frame_mem_eq hwf hshared hsv hl hleaf hrw hleaf' hsame]

theorem Stored.clean (hwf : s.Wf) (hshared : s.Shared) (hclean : s.Clean)
    (hsv : s.svs id = some sv) (hl : sv.loadedOn = some c)
    (hleaf : slotLeaf s.h (s.table id) vaddr.path = some e) (hrw : e.rw = true)
    (hstored : s.Stored c vaddr e value mask s') : s'.Clean := by
  have heffect := hstored.effect hwf hsv hl
  refine heffect.clean hwf hshared hclean fun sv' va e' hva hsv' hleaf' hdirty => ?_
  by_cases hsame : SamePage va.path vaddr.path
  · obtain rfl := Option.some.inj ((hstored.marked va.path hsame).symm.trans hleaf')
    rw [SimplePte.dirty_setDirty] at hdirty
    cases hdirty
  · rw [hstored.kept va.path hsame, ← table_of_loaded hsv hl] at hleaf'
    rw [heffect.initialPage_eq hwf,
      hstored.frame_mem_eq hwf hshared hsv hl hleaf hrw hleaf' hsame]
    obtain ⟨h, rfl⟩ := hstored.frame
    exact hclean id sv' va e' hva hsv' hleaf' hdirty

end Access

/-! ## Copies -/

section Copy

variable {deep : SimplePte → Bool} {h : PhysMem A} {sv' : Sv elf}

/-- A copy has the content of what it was made from. -/
theorem pageContent_of_copy (hwf : s.Wf) (hshared : s.Shared) (hclean : s.Clean)
    (hsv : s.svs id = some sv) (hl : sv'.loadedOn = none)
    (hcopy : CopyMade deep s.h (s.table id) h sv'.root) {va : LinAddr} (hva : validAddress va = true) :
    ({ s with h }.addSv sv').pageContent s.nextId sv.image va = s.pageContent id sv.image va := by
  have heffect : s.Effect s.nextId sv'.root ({ s with h }.addSv sv') :=
    effect_addSv hwf.toSlots hl hcopy.builds.toEvolves
  have htable := heffect.table_self
  have hid : id ≠ s.nextId := by
    rintro rfl
    rw [hwf.fresh _ (Nat.le_refl _)] at hsv
    cases hsv
  cases hleaf' : slotLeaf h sv'.root va.path with
  | some e' =>
    obtain ⟨e, hleaf, -, hcopyOf⟩ := hcopy.leaf hleaf'
    rw [pageContent_of_leaf hleaf, pageContent_of_leaf (by rw [htable]; exact hleaf')]
    refine congrArg some ?_
    cases hdeep : deep e with
    | true => exact (hcopyOf.own hdeep).2.2.2
    | false =>
      rw [hcopyOf.shared hdeep]
      exact heffect.frame_mem_eq hwf hshared hsv hleaf hid
  | none =>
    rw [pageContent_of_no_leaf (by rw [htable]; exact hleaf'), heffect.initialPage_eq hwf]
    cases hleaf : slotLeaf s.h (s.table id) va.path with
    | none => rw [pageContent_of_no_leaf hleaf]
    | some e =>
      have hdirty : e.dirty = false := by
        by_contra hdirty
        obtain ⟨e', he', -⟩ := hcopy.copied va.path e hleaf (by simpa using hdirty)
        rw [hleaf'] at he'
        cases he'
      rw [pageContent_of_leaf hleaf]
      exact hclean id sv va e hva hsv hleaf hdirty

/-- A copy has no clean pages. -/
theorem clean_of_copy (hwf : s.Wf) (hshared : s.Shared) (hclean : s.Clean)
    (hcopy : CopyMade deep s.h (s.table id) h sv'.root) (hl : sv'.loadedOn = none) :
    ({ s with h }.addSv sv').Clean := by
  refine (effect_addSv hwf.toSlots hl hcopy.builds.toEvolves).clean hwf hshared hclean
    fun _ va e _ _ hleaf hdirty => ?_
  obtain ⟨_, -, -, hcopyOf⟩ := hcopy.leaf hleaf
  rw [hcopyOf.dirty] at hdirty
  cases hdirty

end Copy

theorem Stepped.clean (hwf : s.Wf) (hshared : s.Shared) (hclean : s.Clean) {a : MemStep elf}
    (hstep : s.Stepped a s') : s'.Clean := by
  cases hstep with
  | createSV image =>
    refine (effect_addSv (h := s.h) hwf.toSlots rfl (Builds.refl (by simp)).toEvolves).clean hwf
      hshared hclean fun _ _ _ _ _ hleaf _ => ?_
    cases hleaf
  | newInstance hsrc hisSv hcopy => exact clean_of_copy hwf hshared hclean hcopy rfl
  | @load c id sv s' hempty hsv hisInstance hl hloaded =>
    refine (hloaded.effect hwf hempty hsv hisInstance hl).clean hwf hshared hclean
      fun sv' va e hva hsv' hleaf hdirty => ?_
    rw [hloaded.svs, Function.update_self] at hsv'
    obtain rfl := Option.some.inj hsv'
    rw [hloaded.h] at hleaf ⊢
    exact hclean id sv va e hva hsv hleaf hdirty
  | @unload c id sv s' hid hsv hl hunloaded =>
    refine (hunloaded.effect hwf hid hsv hl).clean hwf hshared hclean
      fun sv' va e hva hsv' hleaf hdirty => ?_
    rw [hunloaded.svs, Function.update_self] at hsv'
    obtain rfl := Option.some.inj hsv'
    rw [hunloaded.h] at hleaf ⊢
    exact hclean id sv va e hva hsv (hwf.slotLeaf_of_root hsv hl hleaf) hdirty
  | read hid hsv hl hvalid haccessed =>
    have hclean₁ := haccessed.clean hwf hshared hclean hid hsv hl hvalid
    exact hclean₁
  | @write c vaddr value mask id sv e s₁ s' hid hsv hl hvalid haccessed hstored =>
    have hwf₁ := haccessed.wf hwf hid hsv hl
    have hsv₁ : s₁.svs id = some sv := haccessed.svs ▸ hsv
    exact hstored.clean hwf₁ (haccessed.shared hwf hshared hid hsv hl)
      (haccessed.clean hwf hshared hclean hid hsv hl hvalid) hsv₁ hl
      ((table_of_loaded hsv₁ hl).symm ▸ haccessed.leaf) (haccessed.rw rfl)
  | checkpoint hid hsv hl hcopy => exact clean_of_copy hwf hshared hclean hcopy rfl
  | @destroy id sv s' hsv hl hdestroyed =>
    intro j svj va e hva hsvj hleaf hdirty
    have hj : j ≠ id := by
      rintro rfl
      rw [hdestroyed.svs_self] at hsvj
      cases hsvj
    rw [hdestroyed.svs_of_ne hj] at hsvj
    rw [hdestroyed.slotLeaf_eq hj] at hleaf
    rw [hdestroyed.freed.mem]
    exact hclean j svj va e hva hsvj hleaf hdirty

/-! ## State vectors -/

theorem Destroyed.pageContent_eq (hdestroyed : s.Destroyed id s') (hj : j ≠ id)
    (image : Image elf) (va : LinAddr) :
    s'.pageContent j image va = s.pageContent j image va := by
  rw [pageContent, pageContent, hdestroyed.slotLeaf_eq hj, hdestroyed.freed.mem]

/-- What a state vector holds never changes. -/
theorem Stepped.pageContent_sv (hwf : s.Wf) (hshared : s.Shared) {a : MemStep elf}
    (hstep : s.Stepped a s') (hsv : s.svs id = some sv) (hisSv : sv.isInstance = false)
    (hsv' : s'.svs id ≠ none) (image : Image elf) (va : LinAddr) :
    s'.pageContent id image va = s.pageContent id image va := by
  rcases hstep.effect_or_destroyed hwf with ⟨j, root', heffect⟩ | ⟨j, hdestroyed⟩
  · refine heffect.pageContent_eq hwf hshared hsv ?_ image va
    rintro rfl
    rw [heffect.isInstance sv hsv] at hisSv
    cases hisSv
  · refine hdestroyed.pageContent_eq ?_ image va
    rintro rfl
    exact hsv' hdestroyed.svs_self

end Sys

end Umm
