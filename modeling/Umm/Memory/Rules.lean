import Umm.Memory.System

/-!
# What the steps of the memory machine do

`Slots` is the bookkeeping invariant of the machine, and `Wf` adds the family invariant of its
tables: no two state vectors or instances hold the same frame, and none holds a frame of the ELF
images.  Under it, the rules of this file say once what a page fault and a guest access can do;
everything that is proved about the machine later goes through them.
-/

namespace Umm

open Foundations Foundations.Layout

namespace Sys

variable {A : Allocator Pfn} {elf : Set Pfn} {s s' : Sys A elf} {c : UmiCore} {id : SvId}
  {sv : Sv elf} {vaddr : LinAddr}

/-! ## The invariant of the tables -/

/-- The slots hold what the instances in them say. -/
structure Slots (s : Sys A elf) : Prop where
  /-- A core has an instance in its slot when the instance is loaded there. -/
  activeUmi_iff : ∀ c id, s.activeUmi c = some id ↔
    ∃ sv, s.svs id = some sv ∧ sv.loadedOn = some c
  /-- Only instances are loaded. -/
  isInstance : ∀ id sv c, s.svs id = some sv → sv.loadedOn = some c → sv.isInstance = true
  /-- The slot has the table of an instance that came with one. -/
  root_of_loaded : ∀ id sv c r, s.svs id = some sv → sv.loadedOn = some c → sv.root = some r →
    s.getSlotPDPTRoot c = some r
  /-- An empty slot has no table. -/
  pml4_of_empty : ∀ c, s.activeUmi c = none → s.pml4 c = 0
  /-- The entry of a slot is clear or links to a table. -/
  pml4_cases : ∀ c, s.pml4 c = 0 ∨ ∃ r, s.pml4 c = pageTables.link r
  /-- Identifiers are not used before they are given out. -/
  fresh : ∀ id, s.nextId ≤ id → s.svs id = none

/-- The slots are in order and the tables are apart. -/
structure Wf (s : Sys A elf) : Prop extends Slots s where
  /-- Every table is a slot page table, and holds frames of its own. -/
  apart : pageTables.Apart SimplePte.rw GuestEntry pdptLevel elf s.h s.table

theorem getSlotPDPTRoot_of_clear (h : s.pml4 c = 0) : s.getSlotPDPTRoot c = none := by
  rw [getSlotPDPTRoot, h, if_neg (by decide)]

theorem getSlotPDPTRoot_of_link {r : Pfn} (h : s.pml4 c = pageTables.link r) :
    s.getSlotPDPTRoot c = some r := by
  have hexists : (pageTables.link r).exists = true := SimplePte.sel_setPte ..
  rw [getSlotPDPTRoot, h, if_pos hexists]
  exact congrArg some (SimplePte.pageTabEntToPfn_setPte _ _ _ _ _ _ (by decide) (by decide))

theorem pml4_setSlotPDPTRoot_self (s : Sys A elf) (c : UmiCore) (r : Pfn) :
    (s.setSlotPDPTRoot c r).pml4 c = pageTables.link r :=
  Function.update_self ..

@[simp] theorem getSlotPDPTRoot_setSlotPDPTRoot_self (s : Sys A elf) (c : UmiCore) (r : Pfn) :
    (s.setSlotPDPTRoot c r).getSlotPDPTRoot c = some r :=
  getSlotPDPTRoot_of_link (pml4_setSlotPDPTRoot_self s c r)

/-- A table installed in a clear slot is there, and one that the slot has stays. -/
theorem getSlotPDPTRoot_install {r : Pfn}
    (hcases : s.pml4 c = 0 ∨ ∃ r', s.pml4 c = pageTables.link r')
    (hroot : ∀ r', s.getSlotPDPTRoot c = some r' → some r = some r') :
    (if s.pml4 c = 0 then s.setSlotPDPTRoot c r else s).getSlotPDPTRoot c = some r := by
  by_cases hclear : s.pml4 c = 0
  · rw [if_pos hclear, getSlotPDPTRoot_setSlotPDPTRoot_self]
  · obtain ⟨r', hlink⟩ := hcases.resolve_left hclear
    have hslot := getSlotPDPTRoot_of_link hlink
    rw [if_neg hclear, hslot, hroot _ hslot]

/-- Installing a table changes nothing but the slot. -/
theorem install_frame (s : Sys A elf) (c : UmiCore) (r : Pfn) :
    ∃ pml4, (if s.pml4 c = 0 then s.setSlotPDPTRoot c r else s) = { s with pml4 } ∧
      ∀ c' ≠ c, pml4 c' = s.pml4 c' := by
  by_cases hclear : s.pml4 c = 0
  · rw [if_pos hclear]
    exact ⟨_, rfl, fun c' hc' => Function.update_of_ne hc' ..⟩
  · rw [if_neg hclear]
    exact ⟨s.pml4, rfl, fun _ _ => rfl⟩

theorem linked_install {r : Pfn} (hcases : s.pml4 c = 0 ∨ ∃ r', s.pml4 c = pageTables.link r') :
    ∃ r', (if s.pml4 c = 0 then s.setSlotPDPTRoot c r else s).pml4 c = pageTables.link r' := by
  by_cases hclear : s.pml4 c = 0
  · rw [if_pos hclear]
    exact ⟨r, pml4_setSlotPDPTRoot_self s c r⟩
  · rw [if_neg hclear]
    exact hcases.resolve_left hclear

/-- The table of a slot depends on the slot's entry only. -/
theorem getSlotPDPTRoot_congr (h : s'.pml4 c = s.pml4 c) :
    s'.getSlotPDPTRoot c = s.getSlotPDPTRoot c := by
  rw [getSlotPDPTRoot, getSlotPDPTRoot, h]

theorem table_of_none (h : s.svs id = none) : s.table id = none := by
  rw [table, h, Option.bind_none]

theorem table_of_loaded (h : s.svs id = some sv) (hc : sv.loadedOn = some c) :
    s.table id = s.getSlotPDPTRoot c := by
  rw [table, h, Option.bind_some, hc]

theorem table_of_unloaded (h : s.svs id = some sv) (hc : sv.loadedOn = none) :
    s.table id = sv.root := by
  rw [table, h, Option.bind_some, hc]

theorem active_eq (hid : s.activeUmi c = some id) (hsv : s.svs id = some sv) :
    s.active c = .ok (id, sv) := by
  simp [active, hid, hsv]

/-- The instance in the slot of a core. -/
theorem Slots.exists_active (hwf : s.Slots) (hc : (s.activeUmi c).isSome = true) :
    ∃ id sv, s.activeUmi c = some id ∧ s.svs id = some sv ∧ sv.loadedOn = some c := by
  obtain ⟨id, hid⟩ := Option.isSome_iff_exists.mp hc
  obtain ⟨sv, hsv, hloaded⟩ := (hwf.activeUmi_iff c id).mp hid
  exact ⟨id, sv, hid, hsv, hloaded⟩

/-- The table of a slot is that of the instance in it. -/
theorem Wf.slot_mappable (hwf : s.Wf) (hsv : s.svs id = some sv) (hloaded : sv.loadedOn = some c) :
    ∀ r, s.getSlotPDPTRoot c = some r → SlotTable s.h r :=
  fun r hr => hwf.apart.mappable id r ((table_of_loaded hsv hloaded).trans hr)

/-! ## Page faults -/

/-- What a page fault at `vaddr` on the core `c` with the instance `sv` does: it maps one page of the
slot anew and changes nothing else. -/
structure Faulted (s : Sys A elf) (c : UmiCore) (sv : Sv elf) (vaddr : LinAddr)
    (ec : PgFaultErrorCode) (s' : Sys A elf) : Prop where
  /-- Nothing is created or destroyed. -/
  svs : s'.svs = s.svs
  /-- No identifier is given out. -/
  nextId : s'.nextId = s.nextId
  /-- The slots keep their instances. -/
  activeUmi : s'.activeUmi = s.activeUmi
  /-- No guest has read. -/
  reads : s'.reads = s.reads
  /-- The other slots keep their tables. -/
  pml4_of_ne : ∀ c' ≠ c, s'.pml4 c' = s.pml4 c'
  /-- The slot links to a table. -/
  linked_self : ∃ r, s'.pml4 c = pageTables.link r
  /-- The table of the slot has been built, or more of it. -/
  builds : SlotBuilds s.h (s.getSlotPDPTRoot c) s'.h (s'.getSlotPDPTRoot c)
  /-- The other pages of the slot keep their leaves. -/
  kept : ∀ w, ¬ SamePage w vaddr.path →
    slotLeaf s'.h (s'.getSlotPDPTRoot c) w = slotLeaf s.h (s.getSlotPDPTRoot c) w
  /-- The page has a new leaf: dirty after a write, and on a frame of its own or of the image.  Its
  content is the old one after a write to a present page, and the initial one otherwise. -/
  entered : ∃ e, (∀ w, SamePage w vaddr.path →
      slotLeaf s'.h (s'.getSlotPDPTRoot c) w = some e) ∧
    e.dirty = ec.wr ∧ (e.rw = false → e.frame ∈ elf ∧ ec.wr = false) ∧
    if ec.p && ec.wr then ∃ e₀, slotLeaf s.h (s.getSlotPDPTRoot c) vaddr.path = some e₀ ∧
      s'.h.mem e.frame = s.h.mem e₀.frame
    else initialPage sv.image.regions s.h.mem vaddr.pageDown = some (s'.h.mem e.frame)
  /-- The new leaf has the permissions of the region. -/
  region : ∃ reg f, getRegionOfAddr sv.image.regions vaddr.pageDown = .ok reg ∧
    ∀ w, SamePage w vaddr.path → slotLeaf s'.h (s'.getSlotPDPTRoot c) w =
      some (SimplePte.setPte f ec.wr true reg.writable true (!reg.isExecutable))
  /-- The table has everything, if it did not have the frame that the page led to before. -/
  claims : (∀ e₀, slotLeaf s.h (s.getSlotPDPTRoot c) vaddr.path = some e₀ → e₀.rw = false) →
    SlotClaims s.h (s.getSlotPDPTRoot c) s'.h (s'.getSlotPDPTRoot c)

/-- The rule of `process_pagefault`: in a supported region, it fails only when memory has run out. -/
theorem processPagefault_faulted (hwf : s.Wf) (hid : s.activeUmi c = some id)
    (hsv : s.svs id = some sv) (hloaded : sv.loadedOn = some c) (ec : PgFaultErrorCode) :
    Outcome (s.processPagefault c vaddr ec) (s.Faulted c sv vaddr ec)
      (fun err => Supported sv.image.regions s.h.mem vaddr.pageDown ec.wr →
        ((ec.p && ec.wr) = true → slotLeaf s.h (s.getSlotPDPTRoot c) vaddr.path ≠ none) →
        err = .kbugon) := by
  have hroot := hwf.slot_mappable hsv hloaded
  have htable := table_of_loaded hsv hloaded
  unfold processPagefault
  rw [active_eq hid hsv]
  refine outcome_bind.mpr (outcome_ok.mpr (outcome_bind.mpr
    ((getBackingPage_backing vaddr.pageDown_pageDown _ ec s.h).mono ?_ ?_)))
  rotate_left
  · intro err herr hsupported hpresent
    refine herr hsupported fun hec hnone => hpresent hec ?_
    rwa [LinAddr.path_pageDown, Option.map_eq_none_iff] at hnone
  rintro ⟨phys, h₁⟩ ⟨reg, hbacking⟩
  simp only [hbacking.region]
  obtain ⟨hfree, hmem, hcalls, hnew⟩ := hbacking.before
  refine outcome_bind.mpr (outcome_ok.mpr (outcome_bind.mpr ((mapAt_slot hroot hfree hmem hcalls
    (SimplePte.sel_setPte ..) (SimplePte.a_setPte ..) ?_).mono ?_ fun _ herr _ _ => herr)))
  · rw [SimplePte.rw_setPte, SimplePte.frame_setPte]
    exact hnew
  rintro ⟨pdpt, h₂⟩ ⟨hbuilds, hentered, hkept, -, hcontent, hclaims⟩
  rw [SimplePte.frame_setPte] at hcontent
  rw [SimplePte.rw_setPte, SimplePte.frame_setPte] at hclaims
  rw [LinAddr.path_pageDown] at hentered hkept
  rw [outcome_ok]
  have hslot := getSlotPDPTRoot_install (s := { s with h := h₂ }) (c := c) (r := pdpt)
    (hwf.pml4_cases c) hbuilds.root_eq
  have hlinked := linked_install (s := { s with h := h₂ }) (c := c) (r := pdpt) (hwf.pml4_cases c)
  obtain ⟨pml4, hinstall, hother⟩ := install_frame { s with h := h₂ } c pdpt
  rw [hinstall] at hslot hlinked ⊢
  refine { svs := rfl, nextId := rfl, activeUmi := rfl, reads := rfl, pml4_of_ne := hother,
           linked_self := hlinked, builds := ?_, kept := fun w hw => ?_, entered := ?_,
           region := ⟨reg, phys, hbacking.region, by rwa [hslot]⟩, claims := fun hover => ?_ }
  · rw [hslot]
    exact hbuilds
  · rw [hslot]
    exact hkept w hw
  · rw [hslot]
    refine ⟨_, hentered, SimplePte.dirty_setPte .., ?_, ?_⟩
    · rw [SimplePte.rw_setPte, SimplePte.frame_setPte]
      intro hwritable
      obtain ⟨hwr, -, helf, -⟩ := hbacking.shared hwritable
      exact ⟨helf, hwr⟩
    · rw [SimplePte.frame_setPte]
      cases hwritable : reg.writable with
      | false =>
        obtain ⟨hwr, rfl, helf, hinitial⟩ := hbacking.shared hwritable
        rw [hwr, Bool.and_false, if_neg (by decide), hinitial]
        refine congrArg some (hbuilds.mem_eq phys (hwf.apart.used_of_pinned phys helf) ?_).symm
        rw [← htable]
        exact fun hheld => hwf.apart.not_pinned id phys hheld helf
      | true =>
        obtain ⟨page, hfilled, hpage⟩ := hbacking.owned hwritable
        have hpages : phys ∉ slotPages s.h (s.getSlotPDPTRoot c) := by
          rintro ⟨r, hr, hf⟩
          exact (hroot r hr).used phys (nodes_subset_frames _ _ hf) hfilled.free
        have hphys : h₂.mem phys = page :=
          (hcontent (hnew hwritable).2 hpages).1.trans hfilled.mem_self
        split_ifs at hpage ⊢
        · obtain ⟨f, hcur, rfl⟩ := hpage
          rw [LinAddr.path_pageDown, Option.map_eq_some_iff] at hcur
          obtain ⟨e₀, he₀, rfl⟩ := hcur
          exact ⟨e₀, he₀, hphys⟩
        · rw [hpage, hphys]
  · rw [hslot]
    refine hclaims (fun e₀ he₀ => hover e₀ (by rwa [LinAddr.path_pageDown] at he₀))
      fun f hf hused => ?_
    cases hwritable : reg.writable with
    | false =>
      obtain ⟨-, rfl, -, -⟩ := hbacking.shared hwritable
      exact absurd hf hused
    | true =>
      obtain ⟨page, hfilled, -⟩ := hbacking.owned hwritable
      refine ⟨rfl, ?_⟩
      by_contra hne
      exact hused ((hfilled.isFree f).mpr ⟨hf, hne⟩)

/-! ## Guest accesses -/

/-- What an access does: it ends with a leaf that allows it, after one page fault at most. -/
structure Accessed (s : Sys A elf) (c : UmiCore) (sv : Sv elf) (vaddr : LinAddr) (wr : Bool)
    (e : SimplePte) (s' : Sys A elf) : Prop where
  /-- There was no fault, or one: on a page that was not present, or on a write without access. -/
  fault : s' = s ∨ ∃ ec, s.Faulted c sv vaddr ec s' ∧
    ((ec.p && ec.wr) = false → slotLeaf s.h (s.getSlotPDPTRoot c) vaddr.path = none) ∧
    ∀ e₀, slotLeaf s.h (s.getSlotPDPTRoot c) vaddr.path = some e₀ → e₀.rw = false
  /-- The page has the leaf. -/
  leaf : slotLeaf s'.h (s'.getSlotPDPTRoot c) vaddr.path = some e
  /-- A write is allowed. -/
  rw : wr = true → e.rw = true
  /-- After a read, a dirty leaf is the old one. -/
  old : wr = false → e.dirty = true → slotLeaf s.h (s.getSlotPDPTRoot c) vaddr.path = some e

theorem translate_eq_some {wr : Bool} {e : SimplePte} : s.translate c vaddr wr = some e ↔
    slotLeaf s.h (s.getSlotPDPTRoot c) vaddr.path = some e ∧ (wr = true → e.rw = true) := by
  rw [translate, Option.filter_eq_some_iff]
  cases wr <;> simp

/-- The rule of an access: in a supported region, it fails only when memory has run out. -/
theorem access_accessed (hwf : s.Wf) (hid : s.activeUmi c = some id) (hsv : s.svs id = some sv)
    (hloaded : sv.loadedOn = some c) (wr : Bool) :
    Outcome (s.access c vaddr wr) (fun p => s.Accessed c sv vaddr wr p.1 p.2)
      (fun err => Supported sv.image.regions s.h.mem vaddr.pageDown wr → err = .kbugon) := by
  unfold access
  cases htranslate : s.translate c vaddr wr with
  | some e =>
    obtain ⟨hleaf, hrw⟩ := translate_eq_some.mp htranslate
    exact ⟨Or.inl rfl, hleaf, hrw, fun _ _ => hleaf⟩
  | none =>
    refine outcome_bind.mpr ((processPagefault_faulted hwf hid hsv hloaded _).mono ?_ ?_)
    rotate_left
    · intro err herr hsupported
      refine herr hsupported fun hec hnone => ?_
      rw [hnone, Option.isSome_none, Bool.false_and] at hec
      cases hec
    intro s₁ hfaulted
    cases htranslate₁ : s₁.translate c vaddr wr with
    | none =>
      -- the page has a leaf now, which allows a write if the fault was one
      obtain ⟨e, hentered, -, helf, -⟩ := hfaulted.entered
      rw [translate_eq_some.mpr ⟨hentered _ fun _ _ _ => rfl, fun hwr => ?_⟩] at htranslate₁
      · cases htranslate₁
      · by_contra hrw
        have hec := (helf (by simpa using hrw)).2
        rw [show wr = false from hec] at hwr
        cases hwr
    | some e =>
      obtain ⟨hleaf, hrw⟩ := translate_eq_some.mp htranslate₁
      refine ⟨Or.inr ⟨_, hfaulted, fun hec => ?_, fun e₀ hold => ?_⟩, hleaf, hrw, fun hwr hdirty => ?_⟩
      rotate_left 2
      · -- the leaf that a read makes is not dirty
        obtain ⟨e', hentered, hdirty', -⟩ := hfaulted.entered
        obtain rfl := Option.some.inj (hleaf.symm.trans (hentered _ fun _ _ _ => rfl))
        rw [hwr, hdirty] at hdirty'
        cases hdirty'
      rotate_left
      · -- an access to a page with write access would have been translated
        by_contra hrw₀
        rw [translate_eq_some.mpr ⟨hold, fun _ => by simpa using hrw₀⟩] at htranslate
        cases htranslate
      -- a read of a present page would have been translated
      cases hold : slotLeaf s.h (s.getSlotPDPTRoot c) vaddr.path with
      | none => rfl
      | some e₀ =>
        rw [hold, Option.isSome_some, Bool.true_and] at hec
        obtain rfl : wr = false := hec
        rw [translate_eq_some.mpr ⟨hold, fun hwr => by cases hwr⟩] at htranslate
        cases htranslate

/-- What the store of a guest write does: it writes a word of the frame that the leaf `e` maps, and
marks the leaf dirty. -/
structure Stored (s : Sys A elf) (c : UmiCore) (vaddr : LinAddr) (e : SimplePte)
    (value mask : Word) (s' : Sys A elf) : Prop where
  /-- Only memory changes. -/
  frame : ∃ h, s' = { s with h }
  /-- The table of the slot evolves. -/
  evolves : pageTables.Evolves SimplePte.rw GuestEntry pdptLevel s.h (s.getSlotPDPTRoot c) s'.h
    (s.getSlotPDPTRoot c)
  /-- Nothing is allocated or freed. -/
  isFree : ∀ f, s'.h.IsFree f ↔ s.h.IsFree f
  /-- The table has the frames it had. -/
  frames_eq : slotFrames s'.h (s.getSlotPDPTRoot c) = slotFrames s.h (s.getSlotPDPTRoot c)
  /-- The leaf of the page is dirty. -/
  marked : ∀ w, SamePage w vaddr.path → slotLeaf s'.h (s.getSlotPDPTRoot c) w = some e.setDirty
  /-- The other leaves stay. -/
  kept : ∀ w, ¬ SamePage w vaddr.path →
    slotLeaf s'.h (s.getSlotPDPTRoot c) w = slotLeaf s.h (s.getSlotPDPTRoot c) w
  /-- The word is written. -/
  written : s'.h.mem e.frame = Function.update (s.h.mem e.frame) vaddr.word
    (storeWord (s.h.mem e.frame vaddr.word) value mask)
  /-- No other frame is written that is no page of the table. -/
  mem_eq : ∀ f, f ≠ e.frame → f ∉ slotPages s.h (s.getSlotPDPTRoot c) → s'.h.mem f = s.h.mem f

/-- The word at an address is written, in the frame of the leaf `e`. -/
def writeWord (s : Sys A elf) (vaddr : LinAddr) (e : SimplePte) (value mask : Word) : Sys A elf :=
  { s with
    h := s.h.setPage e.frame (Function.update (s.h.mem e.frame) vaddr.word
      (storeWord (s.h.mem e.frame vaddr.word) value mask)) }

/-- A store to a dirty page writes nothing but the word. -/
theorem store_of_dirty {e : SimplePte}
    (hleaf : slotLeaf s.h (s.getSlotPDPTRoot c) vaddr.path = some e) (hdirty : e.dirty = true)
    (value mask : Word) :
    s.store c vaddr e value mask = s.writeWord vaddr e value mask := by
  unfold store
  cases ht : s.getSlotPDPTRoot c with
  | none => rfl
  | some t =>
    rw [ht] at hleaf
    simp only [markLeaf_of_fixed hleaf (SimplePte.setDirty_of_dirty e hdirty)]
    rfl

theorem store_stored {e : SimplePte} (hroot : ∀ r, s.getSlotPDPTRoot c = some r → SlotTable s.h r)
    (hleaf : slotLeaf s.h (s.getSlotPDPTRoot c) vaddr.path = some e) (hrw : e.rw = true)
    (value mask : Word) : s.Stored c vaddr e value mask (s.store c vaddr e value mask) := by
  have hnode := frame_not_mem_slotPages hroot hleaf hrw
  have hframe := frame_mem_slotFrames hroot hleaf hrw
  cases ht : s.getSlotPDPTRoot c with
  | none =>
    rw [ht] at hleaf
    cases hleaf
  | some t =>
    rw [ht] at hleaf hnode hframe
    have hmarked := marked_markLeaf marks_setDirty SimplePte.rw_setDirty (hroot t ht) hleaf
    have hpage : (markLeaf SimplePte.setDirty s.h t vaddr.path).mem e.frame = s.h.mem e.frame :=
      hmarked.mem_eq _ hnode
    unfold store
    simp only [ht, hpage]
    generalize markLeaf SimplePte.setDirty s.h t vaddr.path = h₁ at *
    generalize hnew : Function.update (s.h.mem e.frame) vaddr.word
      (storeWord (s.h.mem e.frame vaddr.word) value mask) = page
    have hmem : ∀ f ≠ e.frame, (h₁.setPage e.frame page).mem f = h₁.mem f :=
      fun f hf => Heap.mem_setPage_of_ne _ _ hf
    have hpages : ∀ f ∈ slotPages h₁ (some t), (h₁.setPage e.frame page).mem f = h₁.mem f :=
      fun f hf => hmem f fun heq => hnode (hmarked.pages_eq ▸ heq ▸ hf)
    have hnodes : ∀ f ∈ pageTables.nodes h₁.mem pdptLevel t,
        (h₁.setPage e.frame page).mem f = h₁.mem f := fun f hf => hpages f (mem_held.mpr hf)
    have hframes : slotFrames (h₁.setPage e.frame page) (some t) = slotFrames s.h (some t) := by
      refine Eq.trans ?_ hmarked.frames_eq
      ext f
      rw [mem_held, mem_held, frames_congr hnodes]
    refine { frame := ⟨_, rfl⟩, evolves := ?_, isFree := hmarked.isFree, frames_eq := ?_,
             marked := fun w hw => ?_, kept := fun w hw => ?_, written := ?_,
             mem_eq := fun f hf hf' => ?_ }
    · rw [ht]
      refine { mappable := fun r hr => ?_, held_subset := fun f hf => Or.inl (hframes.subset hf),
               isFree := hmarked.builds.isFree, mem_eq := fun f hused hf => ?_,
               freeCalls := hmarked.builds.freeCalls }
      · obtain rfl := Option.some.inj hr
        exact (hmarked.builds.mappable _ rfl).congr hnodes fun _ hf => hf
      · rw [hmem f fun heq => hf (heq ▸ hframe), hmarked.builds.mem_eq f hused hf]
    · rw [ht, hframes]
    · rw [ht, slotLeaf_congr hpages, hmarked.marked w hw]
    · rw [ht, slotLeaf_congr hpages, hmarked.kept w hw]
    · rw [hnew]
      exact Heap.mem_setPage_self ..
    · rw [ht] at hf'
      rw [hmem f hf, hmarked.mem_eq f hf']

end Sys

end Umm
