import Umm.Memory.Rules

/-!
# The steps of the memory machine

`Stepped` says what each step can do, the copies and the freeing of tables included.  Every step but
a destruction is an `Effect` on one state vector or instance: its table evolves, and the others do
not notice.  `Wf` holds of every state of a run.
-/

namespace Umm

open Foundations Foundations.Layout

variable {A : Allocator Pfn} {elf : Set Pfn}

/-! ## Copies -/

/-- `copy` is a table made of the dirty leaves of `src`. -/
structure CopyMade (deep : SimplePte → Bool) (h₀ : PhysMem A) (src : Option Pfn) (h : PhysMem A)
    (copy : Option Pfn) : Prop where
  /-- The copy has been built from nothing. -/
  builds : SlotBuilds h₀ none h copy
  /-- The dirty leaves have copies. -/
  copied : ∀ w e, slotLeaf h₀ src w = some e → e.dirty = true →
    ∃ e', slotLeaf h copy w = some e' ∧ CopyOf deep h₀ h copy e e'
  /-- There are no other leaves. -/
  absent : ∀ w, (∀ e, slotLeaf h₀ src w = some e → e.dirty = false) → slotLeaf h copy w = none
  /-- A copy that shares all its pages has everything that has been allocated. -/
  claims : (∀ e, deep e = false) → SlotClaims h₀ none h copy

/-- A walk that has visited all leaves has made the copy. -/
theorem CopiedLeaves.copyMade {deep : SimplePte → Bool} {src : Pfn} {h₀ : PhysMem A}
    {s : UmPgTblMgmt.CopyState A}
    (hs : CopiedLeaves GuestEntry SimplePte.rw deep src h₀ none Set.univ s) :
    CopyMade deep h₀ (some src) s.2 s.1 where
  builds := hs.builds
  copied := fun w e => hs.copied w (Set.mem_univ w) e
  absent := fun w hw => hs.kept w fun _ => hw
  claims := fun hshared => hs.claims hshared rfl

/-- Copying needs nothing of a table that is not there yet. -/
theorem copyable_none {deep : SimplePte → Bool} {src : Pfn} {h : PhysMem A}
    (htable : SlotTable h src) (hdeep : ∀ e, deep e = true → e.rw = true) :
    CopySource GuestEntry SimplePte.rw deep src h none where
  rw_of_own := fun _ hrw => hrw
  source := htable
  copy := fun r hr => by cases hr
  pages_apart := fun f _ ⟨r, hr, _⟩ => by cases hr
  used := fun w e hleaf hd => by
    have hroot : ∀ r, some src = some r → SlotTable h r := fun r hr => Option.some.inj hr ▸ htable
    exact htable.used _ (mem_held.mp (frame_mem_slotFrames hroot hleaf (hdeep e hd)))
  frames_apart := fun w e _ _ ⟨r, hr, _⟩ => by cases hr

/-- The copy of a handler shares the dirty pages. -/
theorem UmPth.copy_made {h : PhysMem A} {rhs : Option Pfn}
    (hroot : ∀ r, rhs = some r → SlotTable h r) :
    Outcome (UmPth.copy rhs h) (fun p => CopyMade (fun _ => false) h rhs p.2 p.1)
      (· = .kbugon) := by
  cases rhs with
  | none =>
    exact ⟨Builds.refl (by simp), fun w e hleaf => (by cases hleaf), fun _ _ => rfl,
      fun _ => Claims.refl h none⟩
  | some r =>
    exact (UmPgTblMgmt.walkPgTblCOW_outcome (copyable_none (hroot r rfl) (by simp))).mono
      (fun s hs => hs.copyMade) fun _ h => h

/-- A checkpoint copies the dirty pages with write access and shares the others. -/
theorem UmPth.copyInPages_made {h : PhysMem A} {srcRoot : Option Pfn}
    (hroot : ∀ r, srcRoot = some r → SlotTable h r) :
    Outcome (UmPth.copyInPages srcRoot h)
      (fun p => CopyMade SimplePte.rw h srcRoot p.2 (some p.1)) (fun _ => True) := by
  cases srcRoot with
  | none => trivial
  | some r =>
    refine outcome_bind.mpr ((UmPgTblMgmt.walkPgTblCopyDirtyCOW_outcome
      (copyable_none (hroot r rfl) (by simp))).mono ?_ fun _ _ => trivial)
    rintro ⟨root, h'⟩ hs
    cases root with
    | none => trivial
    | some root => exact hs.copyMade

namespace Sys

variable {s s' : Sys A elf} {c : UmiCore} {id j : SvId} {sv : Sv elf} {root' : Option Pfn}

/-! ## Effects -/

/-- The table of `id` evolves to `root'`, and everything else stays. -/
structure Effect (s : Sys A elf) (id : SvId) (root' : Option Pfn) (s' : Sys A elf) : Prop where
  /-- Only the table of `id` changes. -/
  table_eq : s'.table = Function.update s.table id root'
  /-- It evolves. -/
  evolves : pageTables.Evolves SimplePte.rw GuestEntry pdptLevel s.h (s.table id) s'.h root'
  /-- The others are as before. -/
  svs_of_ne : ∀ j ≠ id, s'.svs j = s.svs j
  /-- State vectors do not change. -/
  isInstance : ∀ sv, s.svs id = some sv → sv.isInstance = true

/-- The table that the step is about is the new one. -/
theorem Effect.table_self (heffect : s.Effect id root' s') : s'.table id = root' := by
  rw [heffect.table_eq, Function.update_self]

/-- The others keep theirs. -/
theorem Effect.table_of_ne (heffect : s.Effect id root' s') (hj : j ≠ id) :
    s'.table j = s.table j := by
  rw [heffect.table_eq, Function.update_of_ne hj]

/-- The tables stay apart. -/
theorem Effect.apart (heffect : s.Effect id root' s') (hwf : s.Wf) :
    pageTables.Apart SimplePte.rw GuestEntry pdptLevel elf s'.h s'.table := by
  rw [heffect.table_eq]
  exact hwf.apart.evolve heffect.evolves

/-- Two effects on the same table. -/
theorem Effect.trans {s'' : Sys A elf} {root'' : Option Pfn} (h₁₂ : s.Effect id root' s')
    (h₂₃ : s'.Effect id root'' s'') : s.Effect id root'' s'' where
  table_eq := by rw [h₂₃.table_eq, h₁₂.table_eq, Function.update_idem]
  evolves := by
    have hevolves := h₂₃.evolves
    rw [h₁₂.table_self] at hevolves
    exact h₁₂.evolves.trans hevolves
  svs_of_ne := fun j hj => (h₂₃.svs_of_ne j hj).trans (h₁₂.svs_of_ne j hj)
  isInstance := h₁₂.isInstance

/-- The others have what they had. -/
theorem Effect.slotFrames_eq (heffect : s.Effect id root' s') (hwf : s.Wf) (hj : j ≠ id) :
    slotFrames s'.h (s'.table j) = slotFrames s.h (s.table j) := by
  rw [heffect.table_of_ne hj]
  exact hwf.apart.held_eq heffect.evolves hj _

/-- The others translate as before. -/
theorem Effect.slotLeaf_eq (heffect : s.Effect id root' s') (hwf : s.Wf) (hj : j ≠ id)
    (v : ℕ → Key) : slotLeaf s'.h (s'.table j) v = slotLeaf s.h (s.table j) v := by
  rw [heffect.table_of_ne hj]
  refine slotLeaf_congr (fun f hf => ?_) v
  exact hwf.apart.mem_eq heffect.evolves hj (nodes_subset_held hf)

/-- An effect on a table that does not change. -/
theorem effect_of_table_eq (hwf : s.Wf) (hh : s'.h = s.h) (htable : s'.table = s.table)
    (hsvs : ∀ j ≠ id, s'.svs j = s.svs j)
    (hisInstance : ∀ sv, s.svs id = some sv → sv.isInstance = true) :
    s.Effect id (s.table id) s' where
  table_eq := by rw [htable, Function.update_eq_self]
  evolves := by
    rw [hh]
    exact (Builds.refl (hwf.apart.mappable id)).toEvolves
  svs_of_ne := hsvs
  isInstance := hisInstance

/-! ## The slot of a core -/

/-- A step that changes only the memory and the slot of the core `c` changes the table of the
instance there. -/
theorem table_of_slot (hslots : s.Slots) (hid : s.activeUmi c = some id) (hsvs : s'.svs = s.svs)
    (hpml4 : ∀ c' ≠ c, s'.pml4 c' = s.pml4 c') :
    s'.table = Function.update s.table id (s'.getSlotPDPTRoot c) := by
  obtain ⟨sv, hsv, hloaded⟩ := (hslots.activeUmi_iff c id).mp hid
  funext j
  by_cases hj : j = id
  · subst hj
    rw [Function.update_self, table_of_loaded (hsvs ▸ hsv) hloaded]
  · rw [Function.update_of_ne hj, table, table, hsvs]
    cases hsvj : s.svs j with
    | none => rfl
    | some svj =>
      rw [Option.bind_some, Option.bind_some]
      cases hloadedj : svj.loadedOn with
      | none => rfl
      | some c' =>
        refine getSlotPDPTRoot_congr (hpml4 c' ?_)
        rintro rfl
        have hactive := (hslots.activeUmi_iff c' j).mpr ⟨svj, hsvj, hloadedj⟩
        exact hj (Option.some.inj (hactive.symm.trans hid))

/-- The slots do not depend on the memory. -/
theorem Slots.with_h (hslots : s.Slots) (h : PhysMem A) : ({ s with h } : Sys A elf).Slots :=
  ⟨hslots.activeUmi_iff, hslots.isInstance, hslots.root_of_loaded, hslots.pml4_of_empty,
    hslots.pml4_cases, hslots.fresh⟩

/-- A page fault keeps what holds of the slots. -/
theorem Faulted.slots {vaddr : LinAddr} {ec : PgFaultErrorCode} (hslots : s.Slots)
    (hid : s.activeUmi c = some id) (hfaulted : s.Faulted c sv vaddr ec s') : s'.Slots where
  activeUmi_iff := by
    rw [hfaulted.activeUmi, hfaulted.svs]
    exact hslots.activeUmi_iff
  isInstance := by
    rw [hfaulted.svs]
    exact hslots.isInstance
  root_of_loaded := by
    intro j svj c' r hsvj hloaded hroot
    rw [hfaulted.svs] at hsvj
    have hslot := hslots.root_of_loaded j svj c' r hsvj hloaded hroot
    by_cases hc : c' = c
    · subst hc
      exact hfaulted.builds.root_eq r hslot
    · rw [getSlotPDPTRoot_congr (hfaulted.pml4_of_ne c' hc), hslot]
  pml4_of_empty := by
    intro c' hempty
    rw [hfaulted.activeUmi] at hempty
    have hc : c' ≠ c := by
      rintro rfl
      rw [hid] at hempty
      cases hempty
    rw [hfaulted.pml4_of_ne c' hc, hslots.pml4_of_empty c' hempty]
  pml4_cases := by
    intro c'
    by_cases hc : c' = c
    · exact hc ▸ Or.inr hfaulted.linked_self
    · rw [hfaulted.pml4_of_ne c' hc]
      exact hslots.pml4_cases c'
  fresh := by
    rw [hfaulted.nextId, hfaulted.svs]
    exact hslots.fresh

/-- A page fault changes the table of the slot. -/
theorem Faulted.effect {vaddr : LinAddr} {ec : PgFaultErrorCode} (hwf : s.Wf)
    (hid : s.activeUmi c = some id) (hsv : s.svs id = some sv) (hloaded : sv.loadedOn = some c)
    (hfaulted : s.Faulted c sv vaddr ec s') : s.Effect id (s'.getSlotPDPTRoot c) s' where
  table_eq := table_of_slot hwf.toSlots hid hfaulted.svs hfaulted.pml4_of_ne
  evolves := by
    rw [table_of_loaded hsv hloaded]
    exact hfaulted.builds.toEvolves
  svs_of_ne := fun j _ => by rw [hfaulted.svs]
  isInstance := fun sv' hsv' => by
    obtain rfl := Option.some.inj (hsv.symm.trans hsv')
    exact hwf.isInstance id sv c hsv hloaded

/-- It keeps the invariant. -/
theorem Faulted.wf {vaddr : LinAddr} {ec : PgFaultErrorCode} (hwf : s.Wf)
    (hid : s.activeUmi c = some id) (hsv : s.svs id = some sv) (hloaded : sv.loadedOn = some c)
    (hfaulted : s.Faulted c sv vaddr ec s') : s'.Wf :=
  ⟨hfaulted.slots hwf.toSlots hid, (hfaulted.effect hwf hid hsv hloaded).apart hwf⟩

/-- A store changes the table of the slot. -/
theorem Stored.effect {vaddr : LinAddr} {e : SimplePte} {value mask : Word} (hwf : s.Wf)
    (hsv : s.svs id = some sv) (hloaded : sv.loadedOn = some c)
    (hstored : s.Stored c vaddr e value mask s') : s.Effect id (s.getSlotPDPTRoot c) s' := by
  obtain ⟨h, rfl⟩ := hstored.frame
  have htable := table_of_loaded hsv hloaded
  refine { table_eq := ?_, evolves := ?_, svs_of_ne := fun _ _ => rfl, isInstance := ?_ }
  · rw [← htable, Function.update_eq_self]
    rfl
  · rw [htable]
    exact hstored.evolves
  · intro sv' hsv'
    obtain rfl := Option.some.inj (hsv.symm.trans hsv')
    exact hwf.isInstance id sv c hsv hloaded

/-- It keeps the invariant. -/
theorem Stored.wf {vaddr : LinAddr} {e : SimplePte} {value mask : Word} (hwf : s.Wf)
    (hsv : s.svs id = some sv) (hloaded : sv.loadedOn = some c)
    (hstored : s.Stored c vaddr e value mask s') : s'.Wf := by
  have happart := (hstored.effect hwf hsv hloaded).apart hwf
  obtain ⟨h, rfl⟩ := hstored.frame
  exact ⟨hwf.toSlots.with_h h, happart⟩

/-! ## What exists -/

/-- What is added has the next identifier. -/
@[simp] theorem svs_addSv_self (s : Sys A elf) (sv : Sv elf) :
    (s.addSv sv).svs s.nextId = some sv :=
  Function.update_self ..

/-- The others stay. -/
theorem svs_addSv_of_ne (sv : Sv elf) (hj : j ≠ s.nextId) : (s.addSv sv).svs j = s.svs j :=
  Function.update_of_ne hj ..

/-- What is added is in no slot. -/
theorem slots_addSv (hslots : s.Slots) (hloaded : sv.loadedOn = none) : (s.addSv sv).Slots := by
  have hfresh := hslots.fresh s.nextId (Nat.le_refl _)
  have hold : ∀ {j svj c'}, (s.addSv sv).svs j = some svj → svj.loadedOn = some c' →
      s.svs j = some svj := by
    intro j svj c' hsvj hloadedj
    by_cases hj : j = s.nextId
    · subst hj
      rw [svs_addSv_self] at hsvj
      obtain rfl := Option.some.inj hsvj
      rw [hloaded] at hloadedj
      cases hloadedj
    · rwa [svs_addSv_of_ne sv hj] at hsvj
  refine { activeUmi_iff := fun c' j => (hslots.activeUmi_iff c' j).trans ?_,
           isInstance := fun j svj c' hsvj hl => hslots.isInstance j svj c' (hold hsvj hl) hl,
           root_of_loaded := fun j svj c' r hsvj hl =>
             hslots.root_of_loaded j svj c' r (hold hsvj hl) hl,
           pml4_of_empty := hslots.pml4_of_empty, pml4_cases := hslots.pml4_cases,
           fresh := fun j hj => ?_ }
  · refine exists_congr fun svj => ⟨fun ⟨hsvj, hl⟩ => ⟨?_, hl⟩, fun ⟨hsvj, hl⟩ => ⟨hold hsvj hl, hl⟩⟩
    rw [svs_addSv_of_ne sv, hsvj]
    rintro rfl
    rw [hfresh] at hsvj
    cases hsvj
  · have hlt : s.nextId < j := hj
    rw [svs_addSv_of_ne sv (Nat.ne_of_gt hlt), hslots.fresh j (Nat.le_of_lt hlt)]

/-- The step is about what it adds. -/
theorem effect_addSv {h : PhysMem A} (hslots : s.Slots) (hloaded : sv.loadedOn = none)
    (hevolves : pageTables.Evolves SimplePte.rw GuestEntry pdptLevel s.h none h sv.root) :
    s.Effect s.nextId sv.root ({ s with h }.addSv sv) := by
  have hfresh := hslots.fresh s.nextId (Nat.le_refl _)
  refine { table_eq := funext fun j => ?_, evolves := ?_, svs_of_ne := fun j hj => ?_,
           isInstance := fun svj hsvj => ?_ }
  · by_cases hj : j = s.nextId
    · subst hj
      rw [Function.update_self, table_of_unloaded (svs_addSv_self ..) hloaded]
    · have hold : ({ s with h }.addSv sv).svs j = s.svs j := svs_addSv_of_ne sv hj
      rw [Function.update_of_ne hj, table, hold]
      rfl
  · rw [table_of_none hfresh]
    exact hevolves
  · exact svs_addSv_of_ne sv hj
  · rw [hfresh] at hsvj
    cases hsvj

/-! ## Loading and unloading -/

/-- What `slot_load_instance` does to an instance and an empty slot. -/
structure Loaded (s : Sys A elf) (c : UmiCore) (id : SvId) (sv : Sv elf) (s' : Sys A elf) :
    Prop where
  /-- Memory is not touched. -/
  h : s'.h = s.h
  /-- The instance is loaded. -/
  svs : s'.svs = Function.update s.svs id (some { sv with loadedOn := some c })
  /-- The slot has it. -/
  activeUmi : s'.activeUmi = Function.update s.activeUmi c (some id)
  /-- The slot has its table. -/
  slot : s'.getSlotPDPTRoot c = sv.root
  /-- The slot's entry is clear or links to a table. -/
  pml4_cases : s'.pml4 c = 0 ∨ ∃ r, s'.pml4 c = pageTables.link r
  /-- The other slots keep their tables. -/
  pml4_of_ne : ∀ c' ≠ c, s'.pml4 c' = s.pml4 c'
  /-- No identifier is given out. -/
  nextId : s'.nextId = s.nextId
  /-- No guest reads. -/
  reads : s'.reads = s.reads

/-- Installing the table of an instance in an empty slot changes nothing but the slot. -/
theorem setPthRoot_frame (hclear : s.pml4 c = 0) (pthRoot : Option Pfn) :
    ∃ pml4, s.setPthRoot c pthRoot = { s with pml4 } ∧
      (s.setPthRoot c pthRoot).getSlotPDPTRoot c = pthRoot ∧
      (pml4 c = 0 ∨ ∃ r, pml4 c = pageTables.link r) ∧ ∀ c' ≠ c, pml4 c' = s.pml4 c' := by
  cases pthRoot with
  | none => exact ⟨s.pml4, rfl, getSlotPDPTRoot_of_clear hclear, Or.inl hclear, fun _ _ => rfl⟩
  | some r =>
    exact ⟨_, rfl, getSlotPDPTRoot_setSlotPDPTRoot_self s c r,
      Or.inr ⟨r, pml4_setSlotPDPTRoot_self s c r⟩, fun c' hc' => Function.update_of_ne hc' ..⟩

/-- `slot_load_instance` loads the instance. -/
theorem slotLoadInstance_loaded (hslots : s.Slots) (hempty : s.activeUmi c = none)
    (hsv : s.svs id = some sv) : Outcome (s.slotLoadInstance c id) (s.Loaded c id sv)
      (fun _ => False) := by
  obtain ⟨pml4, hinstall, hslot, hcases, hother⟩ :=
    setPthRoot_frame (hslots.pml4_of_empty c hempty) sv.root
  unfold slotLoadInstance
  simp only [hsv, hinstall]
  rw [hinstall] at hslot
  exact ⟨rfl, rfl, rfl, hslot, hcases, hother, rfl, rfl⟩

/-- It keeps what holds of the slots. -/
theorem Loaded.slots (hslots : s.Slots) (hempty : s.activeUmi c = none) (hsv : s.svs id = some sv)
    (hsvInstance : sv.isInstance = true) (hunloaded : sv.loadedOn = none)
    (hloaded : s.Loaded c id sv s') : s'.Slots := by
  have hself : s'.svs id = some { sv with loadedOn := some c } := by
    rw [hloaded.svs, Function.update_self]
  have hne : ∀ {j}, j ≠ id → s'.svs j = s.svs j := fun hj => by
    rw [hloaded.svs, Function.update_of_ne hj]
  -- the core of an instance that was loaded before
  have hcore : ∀ {j svj c'}, s.svs j = some svj → svj.loadedOn = some c' → c' ≠ c := by
    rintro j svj c' hsvj hl rfl
    have hactive := (hslots.activeUmi_iff c' j).mpr ⟨svj, hsvj, hl⟩
    rw [hempty] at hactive
    cases hactive
  refine { activeUmi_iff := fun c' j => ?_, isInstance := fun j svj c' hsvj hl => ?_,
           root_of_loaded := fun j svj c' r hsvj hl hroot => ?_,
           pml4_of_empty := fun c' hc' => ?_, pml4_cases := fun c' => ?_,
           fresh := fun j hj => ?_ }
  · rw [hloaded.activeUmi]
    by_cases hc : c' = c
    · subst hc
      rw [Function.update_self]
      refine ⟨fun h => ⟨_, Option.some.inj h ▸ hself, rfl⟩, fun ⟨svj, hsvj, hl⟩ => ?_⟩
      by_contra hj
      have hj : j ≠ id := fun heq => hj (heq ▸ rfl)
      exact hcore (hne hj ▸ hsvj) hl rfl
    · rw [Function.update_of_ne hc, hslots.activeUmi_iff]
      refine exists_congr fun svj => and_congr_left fun hl => ?_
      by_cases hj : j = id
      · subst hj
        rw [hself, hsv]
        refine ⟨fun h => ?_, fun h => ?_⟩
        · obtain rfl := Option.some.inj h
          rw [hunloaded] at hl
          cases hl
        · obtain rfl := Option.some.inj h
          exact absurd (Option.some.inj hl).symm hc
      · rw [hne hj]
  · by_cases hj : j = id
    · subst hj
      obtain rfl := Option.some.inj (hself.symm.trans hsvj)
      exact hsvInstance
    · exact hslots.isInstance j svj c' (hne hj ▸ hsvj) hl
  · by_cases hj : j = id
    · subst hj
      obtain rfl := Option.some.inj (hself.symm.trans hsvj)
      obtain rfl := Option.some.inj hl
      rw [hloaded.slot]
      exact hroot
    · have hsvj' := hne hj ▸ hsvj
      rw [getSlotPDPTRoot_congr (hloaded.pml4_of_ne c' (hcore hsvj' hl))]
      exact hslots.root_of_loaded j svj c' r hsvj' hl hroot
  · rw [hloaded.activeUmi] at hc'
    have hc : c' ≠ c := by
      rintro rfl
      rw [Function.update_self] at hc'
      cases hc'
    rw [Function.update_of_ne hc] at hc'
    rw [hloaded.pml4_of_ne c' hc, hslots.pml4_of_empty c' hc']
  · by_cases hc : c' = c
    · exact hc ▸ hloaded.pml4_cases
    · rw [hloaded.pml4_of_ne c' hc]
      exact hslots.pml4_cases c'
  · rw [hloaded.nextId] at hj
    have hfresh := hslots.fresh j hj
    rw [hne, hfresh]
    rintro rfl
    rw [hsv] at hfresh
    cases hfresh

/-- A step that loads or unloads the instance `id` on the core `c` leaves the other tables. -/
theorem table_of_ne_of_slot
    (hother : ∀ j ≠ id, ∀ svj, s.svs j = some svj → svj.loadedOn ≠ some c)
    (hsvs : ∀ j ≠ id, s'.svs j = s.svs j) (hpml4 : ∀ c' ≠ c, s'.pml4 c' = s.pml4 c')
    (hj : j ≠ id) : s'.table j = s.table j := by
  rw [table, table, hsvs j hj]
  cases hsvj : s.svs j with
  | none => rfl
  | some svj =>
    rw [Option.bind_some, Option.bind_some]
    cases hl : svj.loadedOn with
    | none => rfl
    | some c' =>
      refine getSlotPDPTRoot_congr (hpml4 c' ?_)
      rintro rfl
      exact hother j hj svj hsvj hl

/-- It changes no table. -/
theorem Loaded.table_eq (hslots : s.Slots) (hempty : s.activeUmi c = none)
    (hsv : s.svs id = some sv) (hunloaded : sv.loadedOn = none)
    (hloaded : s.Loaded c id sv s') : s'.table = s.table := by
  funext j
  by_cases hj : j = id
  · subst hj
    have hself : s'.svs j = some { sv with loadedOn := some c } := by
      rw [hloaded.svs, Function.update_self]
    rw [table_of_loaded hself rfl, table_of_unloaded hsv hunloaded, hloaded.slot]
  · refine table_of_ne_of_slot (fun k _ svk hsvk hl => ?_) (fun k hk => ?_) hloaded.pml4_of_ne hj
    · have hactive := (hslots.activeUmi_iff c k).mpr ⟨svk, hsvk, hl⟩
      rw [hempty] at hactive
      cases hactive
    · rw [hloaded.svs, Function.update_of_ne hk]

/-- It is about the instance that is loaded. -/
theorem Loaded.effect (hwf : s.Wf) (hempty : s.activeUmi c = none) (hsv : s.svs id = some sv)
    (hisInstance : sv.isInstance = true) (hunloaded : sv.loadedOn = none)
    (hloaded : s.Loaded c id sv s') : s.Effect id (s.table id) s' := by
  refine effect_of_table_eq hwf hloaded.h (hloaded.table_eq hwf.toSlots hempty hsv hunloaded)
    (fun j hj => ?_) fun sv' hsv' => ?_
  · rw [hloaded.svs, Function.update_of_ne hj]
  · obtain rfl := Option.some.inj (hsv.symm.trans hsv')
    exact hisInstance

/-- What `slot_unload_instance` does to the instance in a slot. -/
structure Unloaded (s : Sys A elf) (c : UmiCore) (id : SvId) (sv : Sv elf) (s' : Sys A elf) :
    Prop where
  /-- Memory is not touched. -/
  h : s'.h = s.h
  /-- The instance is unloaded. -/
  svs : s'.svs = Function.update s.svs id (some { sv with
    loadedOn := none
    unloaded := some ⟨s.getSlotPDPTRoot c, slotLeaf s.h (s.getSlotPDPTRoot c)⟩ })
  /-- The slot is empty. -/
  activeUmi : s'.activeUmi = Function.update s.activeUmi c none
  /-- The slot has no table. -/
  pml4 : s'.pml4 = Function.update s.pml4 c 0
  /-- No identifier is given out. -/
  nextId : s'.nextId = s.nextId
  /-- No guest reads. -/
  reads : s'.reads = s.reads

/-- `slot_unload_instance` unloads the instance. -/
theorem slotUnloadInstance_unloaded (hid : s.activeUmi c = some id) (hsv : s.svs id = some sv) :
    Outcome (s.slotUnloadInstance c) (s.Unloaded c id sv) (fun _ => False) := by
  unfold slotUnloadInstance
  rw [active_eq hid hsv]
  exact ⟨rfl, rfl, rfl, rfl, rfl, rfl⟩

/-- It keeps what holds of the slots. -/
theorem Unloaded.slots (hslots : s.Slots) (hid : s.activeUmi c = some id)
    (hsv : s.svs id = some sv) (hl : sv.loadedOn = some c)
    (hunloaded : s.Unloaded c id sv s') : s'.Slots := by
  have hold : ∀ {j svj c'}, s'.svs j = some svj → svj.loadedOn = some c' →
      j ≠ id ∧ s.svs j = some svj := by
    intro j svj c' hsvj hlj
    have hj : j ≠ id := by
      rintro rfl
      rw [hunloaded.svs, Function.update_self] at hsvj
      obtain rfl := Option.some.inj hsvj
      cases hlj
    refine ⟨hj, ?_⟩
    rwa [hunloaded.svs, Function.update_of_ne hj] at hsvj
  have hcore : ∀ {j svj c'}, j ≠ id → s.svs j = some svj → svj.loadedOn = some c' → c' ≠ c := by
    rintro j svj c' hj hsvj hlj rfl
    have hactive := (hslots.activeUmi_iff c' j).mpr ⟨svj, hsvj, hlj⟩
    exact hj (Option.some.inj (hactive.symm.trans hid))
  have hpml4 : ∀ c' ≠ c, s'.pml4 c' = s.pml4 c' := fun c' hc' => by
    rw [hunloaded.pml4, Function.update_of_ne hc']
  refine { activeUmi_iff := fun c' j => ?_, isInstance := fun j svj c' hsvj hlj => ?_,
           root_of_loaded := fun j svj c' r hsvj hlj hroot => ?_,
           pml4_of_empty := fun c' hc' => ?_, pml4_cases := fun c' => ?_,
           fresh := fun j hj => ?_ }
  · rw [hunloaded.activeUmi]
    by_cases hc : c' = c
    · subst hc
      rw [Function.update_self]
      refine ⟨fun h => (by cases h), fun ⟨svj, hsvj, hlj⟩ => ?_⟩
      obtain ⟨hj, hsvj⟩ := hold hsvj hlj
      exact absurd rfl (hcore hj hsvj hlj)
    · rw [Function.update_of_ne hc, hslots.activeUmi_iff]
      refine exists_congr fun svj => and_congr_left fun hlj => ?_
      refine ⟨fun hsvj => ?_, fun hsvj => (hold hsvj hlj).2⟩
      rw [hunloaded.svs, Function.update_of_ne, hsvj]
      rintro rfl
      obtain rfl := Option.some.inj (hsv.symm.trans hsvj)
      exact hc (Option.some.inj (hlj.symm.trans hl))
  · exact hslots.isInstance j svj c' (hold hsvj hlj).2 hlj
  · obtain ⟨hj, hsvj⟩ := hold hsvj hlj
    rw [getSlotPDPTRoot_congr (hpml4 c' (hcore hj hsvj hlj))]
    exact hslots.root_of_loaded j svj c' r hsvj hlj hroot
  · by_cases hc : c' = c
    · rw [hc, hunloaded.pml4, Function.update_self]
    · rw [hunloaded.activeUmi, Function.update_of_ne hc] at hc'
      rw [hpml4 c' hc, hslots.pml4_of_empty c' hc']
  · by_cases hc : c' = c
    · rw [hc, hunloaded.pml4, Function.update_self]
      exact Or.inl rfl
    · rw [hpml4 c' hc]
      exact hslots.pml4_cases c'
  · rw [hunloaded.nextId] at hj
    have hfresh := hslots.fresh j hj
    rw [hunloaded.svs, Function.update_of_ne, hfresh]
    rintro rfl
    rw [hsv] at hfresh
    cases hfresh

/-- Unloading an instance drops the table that its handler does not have. -/
theorem Unloaded.effect (hwf : s.Wf) (hid : s.activeUmi c = some id) (hsv : s.svs id = some sv)
    (hl : sv.loadedOn = some c) (hunloaded : s.Unloaded c id sv s') :
    s.Effect id sv.root s' := by
  have htable := table_of_loaded hsv hl
  have hroot : ∀ r, sv.root = some r → s.table id = some r :=
    fun r hr => htable.trans (hwf.root_of_loaded id sv c r hsv hl hr)
  have hself : ∀ f ∈ slotFrames s.h sv.root, f ∈ slotFrames s.h (s.table id) := by
    rintro f ⟨r, hr, hf⟩
    exact ⟨r, hroot r hr, hf⟩
  refine { table_eq := funext fun j => ?_, evolves := ?_, svs_of_ne := fun j hj => ?_,
           isInstance := fun sv' hsv' => ?_ }
  · by_cases hj : j = id
    · subst hj
      have hsvj : s'.svs j = some { sv with
          loadedOn := none
          unloaded := some ⟨s.getSlotPDPTRoot c, slotLeaf s.h (s.getSlotPDPTRoot c)⟩ } := by
        rw [hunloaded.svs, Function.update_self]
      rw [Function.update_self, table_of_unloaded hsvj rfl]
    · rw [Function.update_of_ne hj]
      refine table_of_ne_of_slot (c := c) (fun k hk svk hsvk hlk => hk ?_) (fun k hk => ?_)
        (fun c' hc' => ?_) hj
      · have hactive := (hwf.activeUmi_iff c k).mpr ⟨svk, hsvk, hlk⟩
        exact Option.some.inj (hactive.symm.trans hid)
      · rw [hunloaded.svs, Function.update_of_ne hk]
      · rw [hunloaded.pml4, Function.update_of_ne hc']
  · rw [hunloaded.h]
    exact ⟨fun t ht => hwf.apart.mappable id t (hroot t ht), fun f hf => Or.inl (hself f hf),
      fun f hf => hf, fun _ _ _ => rfl, rfl⟩
  · rw [hunloaded.svs, Function.update_of_ne hj]
  · obtain rfl := Option.some.inj (hsv.symm.trans hsv')
    exact hwf.isInstance id sv c hsv hl

/-- The leaves of the table of a loaded instance's handler are those of the slot. -/
theorem Wf.slotLeaf_of_root (hwf : s.Wf) (hsv : s.svs id = some sv) (hl : sv.loadedOn = some c)
    {v : ℕ → Key} {e : SimplePte} (hleaf : slotLeaf s.h sv.root v = some e) :
    slotLeaf s.h (s.table id) v = some e := by
  cases hr : sv.root with
  | none =>
    rw [hr] at hleaf
    cases hleaf
  | some r => rw [table_of_loaded hsv hl, hwf.root_of_loaded id sv c r hsv hl hr, ← hr, hleaf]

/-! ## Destruction -/

/-- What the destruction of something that is in no slot does. -/
structure Destroyed (s : Sys A elf) (id : SvId) (s' : Sys A elf) : Prop where
  /-- Its frames are freed. -/
  freed : Heap.Freed (slotFrames s.h (s.table id)) s.h s'.h
  /-- It is gone. -/
  frame : ∃ h, s' = { s with h, svs := Function.update s.svs id none }

/-- `~UmPth` frees what the table holds. -/
theorem destruct_freed {h : PhysMem A} {root : Option Pfn}
    (hroot : ∀ r, root = some r → SlotTable h r) :
    Heap.Freed (slotFrames h root) h (UmPth.destruct root h) := by
  cases root with
  | none => exact (Heap.Freed.refl h).congr (Set.ext fun f => by simp [held])
  | some r => exact UmPgTblMgmt.freePageTableLamb_freed (hroot r rfl)

/-- What is in no slot may be destroyed. -/
theorem destroy_destroyed (hwf : s.Wf) (hsv : s.svs id = some sv) (hl : sv.loadedOn = none) :
    Outcome (s.destroy id) (s.Destroyed id) (fun _ => False) := by
  have htable := table_of_unloaded hsv hl
  unfold destroy
  rw [hsv]
  refine ⟨?_, _, rfl⟩
  rw [htable]
  exact destruct_freed fun r hr => hwf.apart.mappable id r (htable.trans hr)

/-- It is gone. -/
theorem Destroyed.svs_self (hdestroyed : s.Destroyed id s') : s'.svs id = none := by
  obtain ⟨h, rfl⟩ := hdestroyed.frame
  exact Function.update_self ..

/-- The others stay. -/
theorem Destroyed.svs_of_ne (hdestroyed : s.Destroyed id s') (hj : j ≠ id) :
    s'.svs j = s.svs j := by
  obtain ⟨h, rfl⟩ := hdestroyed.frame
  exact Function.update_of_ne hj ..

/-- It has no table any more, and the others keep theirs. -/
theorem Destroyed.table_eq (hdestroyed : s.Destroyed id s') :
    s'.table = Function.update s.table id none := by
  funext j
  by_cases hj : j = id
  · subst hj
    rw [Function.update_self, table_of_none hdestroyed.svs_self]
  · rw [Function.update_of_ne hj, table, hdestroyed.svs_of_ne hj]
    obtain ⟨h, rfl⟩ := hdestroyed.frame
    rfl

/-- The others translate as before. -/
theorem Destroyed.slotLeaf_eq (hdestroyed : s.Destroyed id s') (hj : j ≠ id) (v : ℕ → Key) :
    slotLeaf s'.h (s'.table j) v = slotLeaf s.h (s.table j) v := by
  rw [hdestroyed.table_eq, Function.update_of_ne hj]
  exact slotLeaf_congr (fun f _ => congrFun hdestroyed.freed.mem f) v

/-- The invariant is kept. -/
theorem Destroyed.wf (hwf : s.Wf) (hsv : s.svs id = some sv) (hl : sv.loadedOn = none)
    (hdestroyed : s.Destroyed id s') : s'.Wf := by
  have hold : ∀ {j svj}, s'.svs j = some svj → s.svs j = some svj := by
    intro j svj hsvj
    by_cases hj : j = id
    · subst hj
      rw [hdestroyed.svs_self] at hsvj
      cases hsvj
    · rwa [hdestroyed.svs_of_ne hj] at hsvj
  have happart : pageTables.Apart SimplePte.rw GuestEntry pdptLevel elf s'.h s'.table := by
    rw [hdestroyed.table_eq]
    exact hwf.apart.freed hdestroyed.freed
  obtain ⟨h, hframe⟩ := hdestroyed.frame
  refine { apart := happart, activeUmi_iff := fun c j => ?_,
           isInstance := fun j svj c hsvj => hwf.isInstance j svj c (hold hsvj),
           root_of_loaded := fun j svj c r hsvj hlj hroot => ?_, pml4_of_empty := ?_,
           pml4_cases := ?_, fresh := fun j hj => ?_ }
  · have hactive : s'.activeUmi = s.activeUmi := by rw [hframe]
    rw [hactive, hwf.activeUmi_iff]
    refine exists_congr fun svj => and_congr_left fun hlj => ?_
    refine ⟨fun hsvj => ?_, hold⟩
    rw [hdestroyed.svs_of_ne, hsvj]
    rintro rfl
    obtain rfl := Option.some.inj (hsv.symm.trans hsvj)
    rw [hl] at hlj
    cases hlj
  · have hslot := hwf.root_of_loaded j svj c r (hold hsvj) hlj hroot
    rw [hframe]
    exact hslot
  · rw [hframe]
    exact hwf.pml4_of_empty
  · rw [hframe]
    exact hwf.pml4_cases
  · rw [hframe] at hj
    have hfresh := hwf.fresh j hj
    by_contra hsvj
    obtain ⟨svj, hsvj⟩ := Option.ne_none_iff_exists'.mp hsvj
    rw [hold hsvj] at hfresh
    cases hfresh

/-! ## The steps -/

/-- What each step can do. -/
inductive Stepped (s : Sys A elf) : MemStep elf → Sys A elf → Prop where
  /-- A state vector without a table is new. -/
  | createSV (image : Image elf) : Stepped s (.createSV image) (s.createSVFromElf image)
  /-- An instance is new; it shares the dirty pages of the state vector. -/
  | newInstance {src : SvId} {sv : Sv elf} {root : Option Pfn} {h : PhysMem A}
      (hsrc : s.svs src = some sv) (hisSv : sv.isInstance = false)
      (hcopy : CopyMade (fun _ => false) s.h (s.table src) h root) :
      Stepped s (.newInstance src) ({ s with h }.addSv (sv.clone src root))
  /-- An instance is loaded into an empty slot. -/
  | load {c : UmiCore} {id : SvId} {sv : Sv elf} {s' : Sys A elf}
      (hempty : s.activeUmi c = none) (hsv : s.svs id = some sv) (hisInstance : sv.isInstance = true)
      (hl : sv.loadedOn = none) (hloaded : s.Loaded c id sv s') : Stepped s (.load c id) s'
  /-- The instance in a slot is unloaded. -/
  | unload {c : UmiCore} {id : SvId} {sv : Sv elf} {s' : Sys A elf}
      (hid : s.activeUmi c = some id) (hsv : s.svs id = some sv) (hl : sv.loadedOn = some c)
      (hunloaded : s.Unloaded c id sv s') : Stepped s (.unload c) s'
  /-- A guest reads the word that the leaf of its page leads to. -/
  | read {c : UmiCore} {vaddr : LinAddr} {id : SvId} {sv : Sv elf} {e : SimplePte}
      {s₁ : Sys A elf} (hid : s.activeUmi c = some id) (hsv : s.svs id = some sv)
      (hl : sv.loadedOn = some c) (hvalid : validAddress vaddr = true)
      (haccessed : s.Accessed c sv vaddr false e s₁) :
      Stepped s (.read c vaddr)
        { s₁ with reads := (id, vaddr, s₁.h.mem e.frame vaddr.word) :: s₁.reads }
  /-- A guest writes the word that the leaf of its page leads to. -/
  | write {c : UmiCore} {vaddr : LinAddr} {value mask : Word} {id : SvId} {sv : Sv elf}
      {e : SimplePte} {s₁ s' : Sys A elf} (hid : s.activeUmi c = some id)
      (hsv : s.svs id = some sv) (hl : sv.loadedOn = some c) (hvalid : validAddress vaddr = true)
      (haccessed : s.Accessed c sv vaddr true e s₁)
      (hstored : s₁.Stored c vaddr e value mask s') : Stepped s (.write c vaddr value mask) s'
  /-- A state vector is new; it has copies of the dirty pages of the instance, or shares them. -/
  | checkpoint {c : UmiCore} {id : SvId} {sv : Sv elf} {root : Pfn} {h : PhysMem A}
      (hid : s.activeUmi c = some id) (hsv : s.svs id = some sv) (hl : sv.loadedOn = some c)
      (hcopy : CopyMade SimplePte.rw s.h (s.table id) h (some root)) :
      Stepped s (.checkpoint c) ({ s with h }.addSv (sv.snapshot root))
  /-- Something that is in no slot is gone, and its frames are freed. -/
  | destroy {id : SvId} {sv : Sv elf} {s' : Sys A elf} (hsv : s.svs id = some sv)
      (hl : sv.loadedOn = none) (hdestroyed : s.Destroyed id s') : Stepped s (.destroy id) s'

/-- State vectors are in no slot. -/
theorem Slots.loadedOn_of_sv (hslots : s.Slots) (hsv : s.svs id = some sv)
    (hisSv : sv.isInstance = false) : sv.loadedOn = none := by
  cases hl : sv.loadedOn with
  | none => rfl
  | some c =>
    have hisInstance := hslots.isInstance id sv c hsv hl
    rw [hisSv] at hisInstance
    cases hisInstance

/-- An access changes the table of the slot. -/
theorem Accessed.effect {vaddr : LinAddr} {wr : Bool} {e : SimplePte} (hwf : s.Wf)
    (hid : s.activeUmi c = some id) (hsv : s.svs id = some sv) (hl : sv.loadedOn = some c)
    (haccessed : s.Accessed c sv vaddr wr e s') : s.Effect id (s'.getSlotPDPTRoot c) s' := by
  rcases haccessed.fault with rfl | ⟨ec, hfaulted, -, -⟩
  · rw [← table_of_loaded hsv hl]
    refine effect_of_table_eq hwf rfl rfl (fun _ _ => rfl) fun sv' hsv' => ?_
    obtain rfl := Option.some.inj (hsv.symm.trans hsv')
    exact hwf.isInstance id sv c hsv hl
  · exact hfaulted.effect hwf hid hsv hl

/-- It keeps the invariant. -/
theorem Accessed.wf {vaddr : LinAddr} {wr : Bool} {e : SimplePte} (hwf : s.Wf)
    (hid : s.activeUmi c = some id) (hsv : s.svs id = some sv) (hl : sv.loadedOn = some c)
    (haccessed : s.Accessed c sv vaddr wr e s') : s'.Wf := by
  rcases haccessed.fault with rfl | ⟨ec, hfaulted, -⟩
  · exact hwf
  · exact hfaulted.wf hwf hid hsv hl

/-- It keeps the state vectors and instances. -/
theorem Accessed.svs {vaddr : LinAddr} {wr : Bool} {e : SimplePte}
    (haccessed : s.Accessed c sv vaddr wr e s') : s'.svs = s.svs := by
  rcases haccessed.fault with rfl | ⟨ec, hfaulted, -⟩
  · rfl
  · exact hfaulted.svs

/-- A write is an effect on the table of the instance. -/
theorem write_effect {s₁ : Sys A elf} {vaddr : LinAddr} {value mask : Word} {e : SimplePte}
    (hwf : s.Wf) (hid : s.activeUmi c = some id) (hsv : s.svs id = some sv)
    (hl : sv.loadedOn = some c) (haccessed : s.Accessed c sv vaddr true e s₁)
    (hstored : s₁.Stored c vaddr e value mask s') : s.Effect id (s₁.getSlotPDPTRoot c) s' :=
  (haccessed.effect hwf hid hsv hl).trans
    (hstored.effect (haccessed.wf hwf hid hsv hl) (haccessed.svs ▸ hsv) hl)

/-- A step that the machine admits does what `Stepped` says, if it does not stop the core. -/
theorem exec_stepped (hwf : s.Wf) {a : MemStep elf} (hadmits : s.admits a = true) :
    Outcome (s.exec a) (s.Stepped a) (fun _ => True) := by
  cases a with
  | createSV image => exact .createSV image
  | newInstance src =>
    obtain ⟨sv, hsv, hisSv⟩ := (Option.any_eq_true _ _).mp hadmits
    have hisSv : sv.isInstance = false := by simpa using hisSv
    have htable := table_of_unloaded hsv (hwf.loadedOn_of_sv hsv hisSv)
    simp only [exec, Sys.newInstance, hsv]
    refine outcome_bind.mpr ((UmPth.copy_made fun r hr => hwf.apart.mappable src r
      (htable.trans hr)).mono ?_ fun _ _ => trivial)
    rintro ⟨root, h⟩ hcopy
    exact .newInstance hsv hisSv (htable ▸ hcopy)
  | load c id =>
    simp only [admits, Bool.and_eq_true, Option.isNone_iff_eq_none] at hadmits
    obtain ⟨hempty, hadmits⟩ := hadmits
    obtain ⟨sv, hsv, hsvAdmits⟩ := (Option.any_eq_true _ _).mp hadmits
    simp only [Bool.and_eq_true, Option.isNone_iff_eq_none] at hsvAdmits
    exact (slotLoadInstance_loaded hwf.toSlots hempty hsv).mono
      (fun _ hloaded => .load hempty hsv hsvAdmits.1 hsvAdmits.2 hloaded) fun _ _ => trivial
  | unload c =>
    obtain ⟨id, sv, hid, hsv, hl⟩ := hwf.exists_active hadmits
    exact (slotUnloadInstance_unloaded hid hsv).mono
      (fun _ hunloaded => .unload hid hsv hl hunloaded) fun _ _ => trivial
  | read c vaddr =>
    simp only [admits, Bool.and_eq_true] at hadmits
    obtain ⟨id, sv, hid, hsv, hl⟩ := hwf.exists_active hadmits.1
    simp only [exec, Sys.read, active_eq hid hsv]
    refine outcome_bind.mpr (outcome_ok.mpr (outcome_bind.mpr
      ((access_accessed hwf hid hsv hl false).mono ?_ fun _ _ => trivial)))
    rintro ⟨e, s₁⟩ haccessed
    exact .read hid hsv hl hadmits.2 haccessed
  | write c vaddr value mask =>
    simp only [admits, Bool.and_eq_true] at hadmits
    obtain ⟨id, sv, hid, hsv, hl⟩ := hwf.exists_active hadmits.1
    refine outcome_bind.mpr ((access_accessed hwf hid hsv hl true).mono ?_ fun _ _ => trivial)
    rintro ⟨e, s₁⟩ haccessed
    have hroot := (haccessed.wf hwf hid hsv hl).slot_mappable (haccessed.svs ▸ hsv) hl
    exact .write hid hsv hl hadmits.2 haccessed
      (store_stored hroot haccessed.leaf (haccessed.rw rfl) value mask)
  | checkpoint c =>
    obtain ⟨id, sv, hid, hsv, hl⟩ := hwf.exists_active hadmits
    have htable := table_of_loaded hsv hl
    simp only [exec, Sys.processCheckpoint, active_eq hid hsv]
    refine outcome_bind.mpr (outcome_ok.mpr (outcome_bind.mpr
      ((UmPth.copyInPages_made (hwf.slot_mappable hsv hl)).mono ?_ fun _ _ => trivial)))
    rintro ⟨root, h⟩ hcopy
    exact .checkpoint hid hsv hl (htable ▸ hcopy)
  | destroy id =>
    obtain ⟨sv, hsv, hl⟩ := (Option.any_eq_true _ _).mp hadmits
    have hl : sv.loadedOn = none := by simpa using hl
    exact (destroy_destroyed hwf hsv hl).mono (fun _ hdestroyed => .destroy hsv hl hdestroyed)
      fun _ _ => trivial

/-- A step is an effect on the table of an instance or of something new, or a destruction. -/
theorem Stepped.effect_or_destroyed (hwf : s.Wf) {a : MemStep elf} (hstep : s.Stepped a s') :
    (∃ id root', s.Effect id root' s') ∨ ∃ id, s.Destroyed id s' := by
  cases hstep with
  | createSV image =>
    exact Or.inl ⟨_, _, effect_addSv (h := s.h) hwf.toSlots (show (Sv.ofImage image).loadedOn = none
      from rfl) (Builds.refl (by simp)).toEvolves⟩
  | @newInstance src sv root h hsrc hisSv hcopy =>
    exact Or.inl ⟨_, _, effect_addSv hwf.toSlots (show (sv.clone src root).loadedOn = none from rfl)
      hcopy.builds.toEvolves⟩
  | load hempty hsv hisInstance hl hloaded =>
    exact Or.inl ⟨_, _, hloaded.effect hwf hempty hsv hisInstance hl⟩
  | unload hid hsv hl hunloaded => exact Or.inl ⟨_, _, hunloaded.effect hwf hid hsv hl⟩
  | read hid hsv hl hvalid haccessed =>
    have heffect := haccessed.effect hwf hid hsv hl
    exact Or.inl ⟨_, _, heffect.table_eq, heffect.evolves, heffect.svs_of_ne, heffect.isInstance⟩
  | write hid hsv hl hvalid haccessed hstored =>
    exact Or.inl ⟨_, _, write_effect hwf hid hsv hl haccessed hstored⟩
  | @checkpoint c id sv root h hid hsv hl hcopy =>
    exact Or.inl ⟨_, _, effect_addSv hwf.toSlots (show (sv.snapshot root).loadedOn = none from rfl)
      hcopy.builds.toEvolves⟩
  | destroy hsv hl hdestroyed => exact Or.inr ⟨_, hdestroyed⟩

/-- What the steps of the machine do. -/
theorem step_stepped (hwf : s.Wf) {a : MemStep elf} (hstep : s.step a = some s') :
    s.Stepped a s' := by
  obtain ⟨hadmits, hexec⟩ := step_eq_some.mp hstep
  have houtcome := exec_stepped hwf hadmits
  rw [hexec] at houtcome
  exact houtcome

/-- Each of them keeps the invariant. -/
theorem Stepped.wf (hwf : s.Wf) {a : MemStep elf} (hstep : s.Stepped a s') : s'.Wf := by
  cases hstep with
  | createSV image =>
    exact ⟨slots_addSv hwf.toSlots rfl,
      (effect_addSv (h := s.h) hwf.toSlots rfl (Builds.refl (by simp)).toEvolves).apart hwf⟩
  | newInstance hsrc hisSv hcopy =>
    exact ⟨slots_addSv (hwf.toSlots.with_h _) rfl,
      (effect_addSv hwf.toSlots rfl hcopy.builds.toEvolves).apart hwf⟩
  | load hempty hsv hisInstance hl hloaded =>
    refine ⟨hloaded.slots hwf.toSlots hempty hsv hisInstance hl, ?_⟩
    rw [hloaded.table_eq hwf.toSlots hempty hsv hl, hloaded.h]
    exact hwf.apart
  | unload hid hsv hl hunloaded =>
    exact ⟨hunloaded.slots hwf.toSlots hid hsv hl,
      (hunloaded.effect hwf hid hsv hl).apart hwf⟩
  | read hid hsv hl hvalid haccessed =>
    have hwf₁ := haccessed.wf hwf hid hsv hl
    exact ⟨⟨hwf₁.activeUmi_iff, hwf₁.isInstance, hwf₁.root_of_loaded, hwf₁.pml4_of_empty,
      hwf₁.pml4_cases, hwf₁.fresh⟩, hwf₁.apart⟩
  | write hid hsv hl hvalid haccessed hstored =>
    exact hstored.wf (haccessed.wf hwf hid hsv hl) (haccessed.svs ▸ hsv) hl
  | checkpoint hid hsv hl hcopy =>
    exact ⟨slots_addSv (hwf.toSlots.with_h _) rfl,
      (effect_addSv hwf.toSlots rfl hcopy.builds.toEvolves).apart hwf⟩
  | destroy hsv hl hdestroyed => exact hdestroyed.wf hwf hsv hl

/-- So every step does. -/
theorem step_wf (hwf : s.Wf) {a : MemStep elf} (hstep : s.step a = some s') : s'.Wf :=
  (step_stepped hwf hstep).wf hwf

/-- An access gives out no identifier. -/
theorem Accessed.nextId {vaddr : LinAddr} {wr : Bool} {e : SimplePte}
    (haccessed : s.Accessed c sv vaddr wr e s') : s'.nextId = s.nextId := by
  rcases haccessed.fault with rfl | ⟨ec, hfaulted, -⟩
  · rfl
  · exact hfaulted.nextId

/-- It loads and unloads nothing. -/
theorem Accessed.activeUmi {vaddr : LinAddr} {wr : Bool} {e : SimplePte}
    (haccessed : s.Accessed c sv vaddr wr e s') : s'.activeUmi = s.activeUmi := by
  rcases haccessed.fault with rfl | ⟨ec, hfaulted, -⟩
  · rfl
  · exact hfaulted.activeUmi

/-- It is not yet a read. -/
theorem Accessed.reads {vaddr : LinAddr} {wr : Bool} {e : SimplePte}
    (haccessed : s.Accessed c sv vaddr wr e s') : s'.reads = s.reads := by
  rcases haccessed.fault with rfl | ⟨ec, hfaulted, -⟩
  · rfl
  · exact hfaulted.reads

/-- Identifiers are given out in order: what exists after a step existed before, or is new. -/
theorem Stepped.exists_before {a : MemStep elf} (hstep : s.Stepped a s') :
    s.nextId ≤ s'.nextId ∧ ∀ j, s'.svs j ≠ none → s.svs j ≠ none ∨ j = s.nextId := by
  have hnew : ∀ (h : PhysMem A) sv j, ({ s with h }.addSv sv).svs j ≠ none →
      s.svs j ≠ none ∨ j = s.nextId := by
    intro h sv j hj
    by_cases heq : j = s.nextId
    · exact Or.inr heq
    · exact Or.inl (svs_addSv_of_ne (s := { s with h }) sv heq ▸ hj)
  have hupdate : ∀ {id sv sv'}, s.svs id = some sv → s'.svs = Function.update s.svs id sv' →
      ∀ j, s'.svs j ≠ none → s.svs j ≠ none ∨ j = s.nextId := by
    intro id sv sv' hsv hsvs j hj
    by_cases heq : j = id
    · subst heq
      rw [hsv]
      exact Or.inl (Option.some_ne_none sv)
    · rw [hsvs, Function.update_of_ne heq] at hj
      exact Or.inl hj
  cases hstep with
  | createSV image => exact ⟨Nat.le_succ _, hnew s.h _⟩
  | newInstance hsrc hisSv hcopy => exact ⟨Nat.le_succ _, hnew _ _⟩
  | load hempty hsv hisInstance hl hloaded =>
    exact ⟨Nat.le_of_eq hloaded.nextId.symm, hupdate hsv hloaded.svs⟩
  | unload hid hsv hl hunloaded =>
    exact ⟨Nat.le_of_eq hunloaded.nextId.symm, hupdate hsv hunloaded.svs⟩
  | read hid hsv hl hvalid haccessed =>
    exact ⟨Nat.le_of_eq haccessed.nextId.symm, fun j hj => Or.inl (haccessed.svs ▸ hj)⟩
  | write hid hsv hl hvalid haccessed hstored =>
    obtain ⟨h, rfl⟩ := hstored.frame
    exact ⟨Nat.le_of_eq haccessed.nextId.symm, fun j hj => Or.inl (haccessed.svs ▸ hj)⟩
  | checkpoint hid hsv hl hcopy => exact ⟨Nat.le_succ _, hnew _ _⟩
  | destroy hsv hl hdestroyed =>
    obtain ⟨h, rfl⟩ := hdestroyed.frame
    exact ⟨Nat.le_refl _, hupdate hsv rfl⟩

/-- The invariant holds after boot. -/
theorem wf_init (boot : BootMem A elf) : (init boot).Wf where
  activeUmi_iff := by simp [init]
  isInstance := by simp [init]
  root_of_loaded := by simp [init]
  pml4_of_empty := by simp [init]
  pml4_cases := by simp [init]
  fresh := by simp [init]
  apart :=
    { mappable := fun i t ht => by cases ht
      disjoint := fun i j _ => Set.disjoint_left.mpr fun f ⟨t, ht, _⟩ => by cases ht
      used_of_pinned := boot.used
      not_pinned := fun i f ⟨t, ht, _⟩ => by cases ht }

/-- The states of the runs of the machine are well formed. -/
theorem Wf.of_run {boot : BootMem A elf} {steps : List (MemStep elf)}
    (hrun : Foundations.run step (init boot) steps = some s) : s.Wf :=
  run_invariant' (fun _ _ _ hwf hstep => step_wf hwf hstep) (wf_init boot) hrun

end Sys

end Umm
