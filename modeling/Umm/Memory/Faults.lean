import Umm.Foundations.RadixPath
import Umm.Memory.Content

/-!
# What the processor allows

A guest reads, writes or fetches an instruction at an address.  The processor walks from the slot's
entry in the top-level table to the leaf of the page, and allows the access when every entry on the
walk does; otherwise it raises a page fault, whose error code says whether the page was present and
whether the access was a write.

The results are about the memory of the guest after such a fault.  Pages other than that of the
address stay as they are.  That page keeps its content when the access was a write; a fetch from a
present page of a writable region puts the initial content of the region there.
-/

namespace Umm

open Foundations Foundations.Layout

/-! ## Accesses -/

/-- What a guest does at an address. -/
inductive Access where
  /-- It reads. -/
  | read
  /-- It writes. -/
  | write
  /-- It fetches an instruction. -/
  | fetch
deriving DecidableEq, Repr

/-- The entry is present and allows the access in user mode. -/
def SimplePte.allows (k : Access) (e : SimplePte) : Bool :=
  e.sel && e.us &&
    match k with
    | .read => true
    | .write => e.rw
    | .fetch => !e.xd

/-- The region allows the access. -/
def Region.allows (reg : Region) : Access → Bool
  | .read => true
  | .write => reg.writable
  | .fetch => reg.isExecutable

namespace Sys

variable {A : Allocator Pfn} {elf : Set Pfn} {s s' : Sys A elf} {c : UmiCore} {id : SvId}
  {sv : Sv elf} {vaddr : LinAddr} {k : Access}

/-- Every entry on the walk of the processor allows the access, from the slot's entry on. -/
def permits (s : Sys A elf) (c : UmiCore) (vaddr : LinAddr) (k : Access) : Bool :=
  (s.pml4 c).allows k && pageTables.allOn (SimplePte.allows k) s.h.mem pdptLevel
    ((s.pml4 c).pageTabEntToPfn pml4Level) vaddr.path

/-- The error code that the processor raises for an access. -/
def faultCode (s : Sys A elf) (c : UmiCore) (vaddr : LinAddr) (k : Access) : PgFaultErrorCode where
  p := (slotLeaf s.h (s.getSlotPDPTRoot c) vaddr.path).isSome
  wr := k == .write

/-- The handling of the page fault of an access. -/
def handleFault (s : Sys A elf) (c : UmiCore) (vaddr : LinAddr) (k : Access) :
    Except Stop (Sys A elf) :=
  s.processPagefault c vaddr (s.faultCode c vaddr k)

theorem active_eq_ok : s.active c = .ok (id, sv) ↔ s.activeUmi c = some id ∧ s.svs id = some sv := by
  refine ⟨fun hactive => ?_, fun ⟨hid, hsv⟩ => active_eq hid hsv⟩
  cases hid : s.activeUmi c with
  | none => simp [active, hid] at hactive
  | some id' =>
    cases hsv : s.svs id' with
    | none => simp [active, hid, hsv] at hactive
    | some sv' =>
      obtain ⟨rfl, rfl⟩ := Prod.mk.inj (Except.ok.inj ((active_eq hid hsv).symm.trans hactive))
      exact ⟨rfl, hsv⟩

/-- The instance in the slot of a core is loaded there. -/
theorem Slots.of_active (hslots : s.Slots) (hactive : s.active c = .ok (id, sv)) :
    s.activeUmi c = some id ∧ s.svs id = some sv ∧ sv.loadedOn = some c := by
  obtain ⟨hid, hsv⟩ := active_eq_ok.mp hactive
  obtain ⟨sv', hsv', hloaded⟩ := (hslots.activeUmi_iff c id).mp hid
  obtain rfl := Option.some.inj (hsv.symm.trans hsv')
  exact ⟨hid, hsv, hloaded⟩

/-- What handling a fault does, when it returns. -/
theorem handleFault_faulted (hwf : s.Wf) (hactive : s.active c = .ok (id, sv))
    (hhandled : s.handleFault c vaddr k = .ok s') :
    s.Faulted c sv vaddr (s.faultCode c vaddr k) s' := by
  obtain ⟨hid, hsv, hloaded⟩ := hwf.of_active hactive
  exact (processPagefault_faulted hwf hid hsv hloaded _).of_eq_ok hhandled

/-! ## The memory of the guest -/

/-- Every page that is mapped in the slot lies in a frame in use that is no page of the slot's
table. -/
def Intact (s : Sys A elf) (c : UmiCore) : Prop :=
  ∀ v e, slotLeaf s.h (s.getSlotPDPTRoot c) v = some e →
    ¬ s.h.IsFree e.frame ∧ e.frame ∉ slotPages s.h (s.getSlotPDPTRoot c)

/-- While what the read-only leaves borrow exists, the pages of the slots are intact. -/
theorem Shared.intact (hshared : s.Shared) (hwf : s.Wf) (hactive : s.active c = .ok (id, sv)) :
    s.Intact c := by
  obtain ⟨-, hsv, hloaded⟩ := hwf.of_active hactive
  intro v e hleaf
  rw [← table_of_loaded hsv hloaded] at hleaf ⊢
  obtain ⟨hused, hpages, -⟩ := hshared.frame_apart hwf hsv hleaf fun svi hsvi => by
    obtain rfl := Option.some.inj (hsv.symm.trans hsvi)
    exact hwf.isInstance id sv c hsv hloaded
  exact ⟨hused, hpages⟩

/-- A fault at `vaddr` has not changed the memory that the guest had. -/
structure KeepsMemory (s : Sys A elf) (c : UmiCore) (sv : Sv elf) (vaddr : LinAddr)
    (s' : Sys A elf) : Prop where
  /-- The page is there with the content it had, or with the initial content of its region if it was
  not present. -/
  page : ∃ e', slotLeaf s'.h (s'.getSlotPDPTRoot c) vaddr.path = some e' ∧
    match slotLeaf s.h (s.getSlotPDPTRoot c) vaddr.path with
    | some e => s'.h.mem e'.frame = s.h.mem e.frame
    | none => initialPage sv.image.regions s.h.mem vaddr.pageDown = some (s'.h.mem e'.frame)
  /-- The other pages keep their leaves and contents. -/
  others : ∀ v, ¬ SamePage v vaddr.path →
    slotLeaf s'.h (s'.getSlotPDPTRoot c) v = slotLeaf s.h (s.getSlotPDPTRoot c) v ∧
    ∀ e, slotLeaf s.h (s.getSlotPDPTRoot c) v = some e → s'.h.mem e.frame = s.h.mem e.frame
  /-- A page of a read-only region gets no leaf with write access. -/
  readOnly : ∀ reg, getRegionOfAddr sv.image.regions vaddr.pageDown = .ok reg →
    reg.writable = false → ∀ e', slotLeaf s'.h (s'.getSlotPDPTRoot c) vaddr.path = some e' →
      e'.rw = false

/-- A page that was present keeps its content. -/
theorem KeepsMemory.content (hkeeps : s.KeepsMemory c sv vaddr s') {e e' : SimplePte}
    (hleaf : slotLeaf s.h (s.getSlotPDPTRoot c) vaddr.path = some e)
    (hleaf' : slotLeaf s'.h (s'.getSlotPDPTRoot c) vaddr.path = some e') :
    s'.h.mem e'.frame = s.h.mem e.frame := by
  obtain ⟨e'', hleaf'', hpage⟩ := hkeeps.page
  obtain rfl := Option.some.inj (hleaf'.symm.trans hleaf'')
  rwa [hleaf] at hpage

/-- The page is not present, or the access is a write, or the page still has the initial content of
its region. -/
def SourceIsCurrent (s : Sys A elf) (c : UmiCore) (sv : Sv elf) (vaddr : LinAddr) (k : Access) :
    Prop :=
  ∀ e, slotLeaf s.h (s.getSlotPDPTRoot c) vaddr.path = some e → k ≠ .write →
    initialPage sv.image.regions s.h.mem vaddr.pageDown = some (s.h.mem e.frame)

/-- The other pages of the slot stay as they are. -/
theorem Faulted.others {ec : PgFaultErrorCode} (hfaulted : s.Faulted c sv vaddr ec s')
    (hintact : s.Intact c) {v : ℕ → Key} (hv : ¬ SamePage v vaddr.path) :
    slotLeaf s'.h (s'.getSlotPDPTRoot c) v = slotLeaf s.h (s.getSlotPDPTRoot c) v ∧
    ∀ e, slotLeaf s.h (s.getSlotPDPTRoot c) v = some e → s'.h.mem e.frame = s.h.mem e.frame := by
  refine ⟨hfaulted.kept v hv, fun e hleaf => ?_⟩
  obtain ⟨hused, hpages⟩ := hintact v e hleaf
  exact hfaulted.builds.page_eq _ hused hpages

/-- Pages of read-only regions stay read-only. -/
theorem Faulted.readOnly {ec : PgFaultErrorCode} (hfaulted : s.Faulted c sv vaddr ec s')
    {reg : Region} (hreg : getRegionOfAddr sv.image.regions vaddr.pageDown = .ok reg)
    (hwritable : reg.writable = false) {e' : SimplePte}
    (hleaf : slotLeaf s'.h (s'.getSlotPDPTRoot c) vaddr.path = some e') : e'.rw = false := by
  obtain ⟨reg', f, hreg', hentered⟩ := hfaulted.region
  obtain rfl := Except.ok.inj (hreg.symm.trans hreg')
  obtain rfl := Option.some.inj (hleaf.symm.trans (hentered _ fun _ _ _ => rfl))
  rw [SimplePte.rw_setPte, hwritable]

/-- The content of the page after a fault. -/
theorem Faulted.content (hfaulted : s.Faulted c sv vaddr (s.faultCode c vaddr k) s') :
    ∃ e', slotLeaf s'.h (s'.getSlotPDPTRoot c) vaddr.path = some e' ∧
      if (slotLeaf s.h (s.getSlotPDPTRoot c) vaddr.path).isSome ∧ k = .write then
        ∃ e, slotLeaf s.h (s.getSlotPDPTRoot c) vaddr.path = some e ∧
          s'.h.mem e'.frame = s.h.mem e.frame
      else initialPage sv.image.regions s.h.mem vaddr.pageDown = some (s'.h.mem e'.frame) := by
  obtain ⟨e', hentered, -, -, hcontent⟩ := hfaulted.entered
  refine ⟨e', hentered _ fun _ _ _ => rfl, ?_⟩
  simpa only [faultCode, Bool.and_eq_true, beq_iff_eq] using hcontent

/-- Handling a fault keeps the memory of the guest exactly when the page was not present, or the
access was a write, or the page had its initial content. -/
theorem handleFault_keepsMemory_iff (hwf : s.Wf) (hintact : s.Intact c)
    (hactive : s.active c = .ok (id, sv)) (hhandled : s.handleFault c vaddr k = .ok s') :
    s.KeepsMemory c sv vaddr s' ↔ s.SourceIsCurrent c sv vaddr k := by
  have hfaulted := handleFault_faulted hwf hactive hhandled
  obtain ⟨e', hleaf', hcontent⟩ := hfaulted.content
  constructor
  · intro hkeeps e hleaf hread
    rw [if_neg fun h => hread h.2] at hcontent
    rw [hcontent, hkeeps.content hleaf hleaf']
  · intro hcurrent
    refine ⟨⟨e', hleaf', ?_⟩, fun v hv => hfaulted.others hintact hv,
      fun reg hreg hwritable e'' hleaf'' => hfaulted.readOnly hreg hwritable hleaf''⟩
    cases hleaf : slotLeaf s.h (s.getSlotPDPTRoot c) vaddr.path with
    | none =>
      rw [hleaf, if_neg fun h => by cases h.1] at hcontent
      exact hcontent
    | some e =>
      rw [hleaf] at hcontent
      by_cases hwrite : k = .write
      · rw [if_pos ⟨rfl, hwrite⟩] at hcontent
        obtain ⟨e₀, he₀, hmem⟩ := hcontent
        obtain rfl := Option.some.inj he₀
        exact hmem
      · rw [if_neg fun h => hwrite h.2] at hcontent
        have hinitial := hcurrent e hleaf hwrite
        exact Option.some.inj (hcontent.symm.trans hinitial)

/-- The first write of an instance. -/
theorem handleFault_keepsMemory_first : ∃ s sv s',
    Foundations.run step (init smallBoot) loadFirst = some s ∧ s.active 0 = .ok (1, sv) ∧
      s.handleFault 0 slotStartVAddr .write = .ok s' ∧ s.KeepsMemory 0 sv slotStartVAddr s' := by
  have hrun : ((Foundations.run step (init smallBoot) loadFirst).bind fun s =>
      (s.handleFault 0 slotStartVAddr .write).toOption.map fun _ =>
        (s.activeUmi 0, (s.svs 1).isSome, s.getSlotPDPTRoot 0)) =
      some (some 1, true, none) := by
    decide
  simp only [Option.bind_eq_some_iff, Option.map_eq_some_iff, Prod.mk.injEq, toOption_eq_some,
    Option.isSome_iff_exists] at hrun
  obtain ⟨s, hs, s', hs', hid, ⟨sv, hsv⟩, hroot⟩ := hrun
  have hwf := Wf.of_run hs
  have hactive := active_eq hid hsv
  have hempty : ∀ v e, slotLeaf s.h (s.getSlotPDPTRoot 0) v ≠ some e := by
    intro v e hleaf
    rw [hroot] at hleaf
    cases hleaf
  refine ⟨s, sv, s', hs, hactive, hs', (handleFault_keepsMemory_iff hwf ?_ hactive hs').mpr ?_⟩
  · exact fun v e hleaf => absurd hleaf (hempty v e)
  · exact fun e hleaf => absurd hleaf (hempty _ e)

/-- A memory with five free frames. -/
def fiveFrames : BootMem (Allocator.freeList Pfn) ∅ where
  h := { mem := fun _ _ => 0, pal := [1, 2, 3, 4, 5], freeCalls := [] }
  used := by simp

/-- A guest writes 1 to a page of `.bss` and then fetches an instruction from it: the fault zeroes
the page. -/
theorem not_keepsMemory_fetch : ∃ s sv s',
    Foundations.run step (init fiveFrames) (loadFirst ++ [.write 0 slotStartVAddr 1 (-1)]) = some s ∧
      s.active 0 = .ok (1, sv) ∧ s.permits 0 slotStartVAddr .fetch = false ∧
      s.handleFault 0 slotStartVAddr .fetch = .ok s' ∧ ¬ s.KeepsMemory 0 sv slotStartVAddr s' := by
  -- the page is dirty after the fault of the write, so that the store writes nothing but the word
  have hrun : ((Foundations.run step (init fiveFrames) loadFirst).bind fun s₀ =>
      (s₀.access 0 slotStartVAddr true).toOption.bind fun p =>
        let s := p.2.writeWord slotStartVAddr p.1 1 (-1)
        (s.handleFault 0 slotStartVAddr .fetch).toOption.map fun _ =>
          (p.1.dirty, s₀.admits (.write 0 slotStartVAddr 1 (-1)), s₀.activeUmi 0,
            (s₀.svs 1).map fun sv => decide (sv.image.regions = bssImage.regions),
            s.permits 0 slotStartVAddr .fetch)) =
      some (true, true, some 1, some true, false) := by
    decide
  simp only [Option.bind_eq_some_iff, Option.map_eq_some_iff, Prod.mk.injEq, toOption_eq_some,
    decide_eq_true_eq] at hrun
  obtain ⟨s₀, h₀, ⟨e, s₁⟩, haccess, s', hs', hdirty, hadmits, hid, ⟨sv, hsv, hregions⟩, hdenied⟩ :=
    hrun
  have hwf₀ := Wf.of_run h₀
  obtain ⟨-, -, hloaded⟩ := hwf₀.of_active (active_eq hid hsv)
  have haccessed := (access_accessed hwf₀ hid hsv hloaded true).of_eq_ok haccess
  have hsv₁ : s₁.svs 1 = some sv := haccessed.svs ▸ hsv
  have hstored := store_stored ((haccessed.wf hwf₀ hid hsv hloaded).slot_mappable hsv₁ hloaded)
    haccessed.leaf (haccessed.rw rfl) 1 (-1)
  rw [store_of_dirty haccessed.leaf hdirty] at hstored
  have hs : Foundations.run step (init fiveFrames) (loadFirst ++ [.write 0 slotStartVAddr 1 (-1)]) =
      some (s₁.writeWord slotStartVAddr e 1 (-1)) := by
    have hstep : s₀.step (.write 0 slotStartVAddr 1 (-1)) =
        some (s₁.writeWord slotStartVAddr e 1 (-1)) := by
      refine step_eq_some.mpr ⟨hadmits, ?_⟩
      rw [← store_of_dirty haccessed.leaf hdirty, exec, write, haccess]
      rfl
    rw [run_append, h₀, Option.bind_some, run_cons, hstep]
    rfl
  have hwf := Wf.of_run hs
  have hactive := active_eq (s := s₁.writeWord slotStartVAddr e 1 (-1))
    (haccessed.activeUmi ▸ hid) hsv₁
  refine ⟨_, sv, s', hs, hactive, hdenied, hs', fun hkeeps => ?_⟩
  -- the page has the initial content of `.bss` after the fault, and had 1 before
  obtain ⟨e', hleaf', hcontent⟩ := (handleFault_faulted hwf hactive hs').content
  rw [if_neg fun h => absurd h.2 (by decide), hregions] at hcontent
  have hzero : s'.h.mem e'.frame 0 = 0 := (congrFun (Option.some.inj hcontent) 0).symm
  have hkept := congrFun (hkeeps.content (hstored.marked _ fun _ _ _ => rfl) hleaf') 0
  have hframe : e.setDirty.frame = e.frame := SimplePte.pageTabEntToPfn_setDirty e tblLevel
  have hone : (s₁.writeWord slotStartVAddr e 1 (-1)).h.mem e.frame 0 = 1 := by
    rw [hstored.written]
    simp [LinAddr.word, slotStartVAddr, storeWord]
  rw [hzero, hframe, hone] at hkept
  cases hkept

end Sys

end Umm
