import Umm.Memory.Content

/-!
# Copy on write behaves like private copies

`PrivateCopies` is what the memory of the machine is for: every state vector and every instance has
the content of its pages to itself, a checkpoint and a new instance get a full copy of it, and nothing
is ever shared.  Under the caller's duties of `Orderly`, the memory machine simulates it: the guests
read the same values.
-/

namespace Umm

open Foundations Foundations.Layout

variable {A : Allocator Pfn} {elf : Set Pfn}

/-! ## Private copies -/

/-- The content of each page of the slot, where a page has one. -/
abbrev Content := LinAddr → Option Page

/-- The machine with private copies. -/
structure PrivateCopies where
  /-- What the state vectors and instances hold. -/
  contents : SvId → Option Content
  /-- The next identifier. -/
  nextId : SvId
  /-- The instance on each core. -/
  activeUmi : UmiCore → Option SvId
  /-- Log of the guest reads. -/
  reads : List (SvId × LinAddr × Word)

namespace PrivateCopies

/-- Nothing exists yet. -/
def init : PrivateCopies where
  contents := fun _ => none
  nextId := 0
  activeUmi := fun _ => none
  reads := []

/-- Something new holds the content. -/
def add (p : PrivateCopies) (content : Content) : PrivateCopies :=
  { p with contents := Function.update p.contents p.nextId (some content), nextId := p.nextId + 1 }

/-- What is added has the content. -/
@[simp] theorem contents_add_self (p : PrivateCopies) (content : Content) :
    (p.add content).contents p.nextId = some content :=
  Function.update_self ..

/-- The others keep theirs. -/
theorem contents_add_of_ne (p : PrivateCopies) (content : Content) {j : SvId}
    (hj : j ≠ p.nextId) : (p.add content).contents j = p.contents j :=
  Function.update_of_ne hj ..

/-- The instance on a core and what it holds. -/
def active (p : PrivateCopies) (c : UmiCore) : Option (SvId × Content) :=
  (p.activeUmi c).bind fun id => (p.contents id).map fun content => (id, content)

/-- A step of the machine; `mem₀` is the memory that the ELF images are in. -/
def step (mem₀ : Pfn → Page) (p : PrivateCopies) : MemStep elf → Option PrivateCopies
  | .createSV image => some (p.add (initialPage image.regions mem₀))
  | .newInstance src => (p.contents src).map p.add
  | .load c id => some { p with activeUmi := Function.update p.activeUmi c (some id) }
  | .unload c => some { p with activeUmi := Function.update p.activeUmi c none }
  | .read c vaddr => do
    let (id, content) ← p.active c
    let page ← content vaddr.pageDown
    some { p with reads := (id, vaddr, page vaddr.word) :: p.reads }
  | .write c vaddr value mask => do
    let (id, content) ← p.active c
    let page ← content vaddr.pageDown
    let page' := Function.update page vaddr.word (Sys.storeWord (page vaddr.word) value mask)
    some { p with
      contents := Function.update p.contents id
        (some (Function.update content vaddr.pageDown (some page'))) }
  | .checkpoint c => (p.active c).map fun (_, content) => p.add content
  | .destroy id => some { p with contents := Function.update p.contents id none }

end PrivateCopies

namespace Sys

variable {s s' : Sys A elf} {p : PrivateCopies} {c : UmiCore} {id : SvId} {sv : Sv elf}
  {a : MemStep elf}

/-! ## The caller's duties -/

/-- Checkpoints are taken of instances with a dirty page, an instance of an ELF image is not loaded
again, and state vectors are destroyed after everything that was copied from them. -/
def Orderly (s : Sys A elf) (a : MemStep elf) : Prop :=
  s.DestroysLast a ∧
    match a with
    | .checkpoint c => ∃ w e, slotLeaf s.h (s.getSlotPDPTRoot c) w = some e ∧ e.dirty = true
    | .load _ id => ∀ sv, s.svs id = some sv → sv.fromElf = true → sv.unloaded = none
    | _ => True

/-- The first two duties as a test, which looks for the dirty page of a checkpoint at `va`. -/
def attends (va : LinAddr) (s : Sys A elf) : MemStep elf → Bool
  | .checkpoint c => (slotLeaf s.h (s.getSlotPDPTRoot c) va.path).any SimplePte.dirty
  | .load _ id => (s.svs id).all fun sv => !sv.fromElf || sv.unloaded.isNone
  | _ => true

/-- A checkpoint that passes the test is of a table with a dirty page. -/
theorem exists_dirty_of_attends {va : LinAddr} (h : s.attends va (.checkpoint c) = true) :
    ∃ w e, slotLeaf s.h (s.getSlotPDPTRoot c) w = some e ∧ e.dirty = true := by
  obtain ⟨e, hleaf, hdirty⟩ := (Option.any_eq_true _ _).mp h
  exact ⟨va.path, e, hleaf, hdirty⟩

/-- A load that passes the test is the first of an instance of an image. -/
theorem unloaded_of_attends {va : LinAddr} (h : s.attends va (.load c id) = true)
    (hsv : s.svs id = some sv) (hfrom : sv.fromElf = true) : sv.unloaded = none := by
  have htest := (Option.all_eq_true _ _).mp h sv hsv
  simpa [hfrom] using htest

/-- All duties as a test. -/
def orderly (va : LinAddr) (s : Sys A elf) (a : MemStep elf) : Bool :=
  s.destroysLast a && s.attends va a

/-- What passes the test is a duty done. -/
theorem Slots.orderly_of_test {va : LinAddr} (hslots : s.Slots) (h : s.orderly va a = true) :
    s.Orderly a := by
  obtain ⟨hlast, hattends⟩ := Bool.and_eq_true_iff.mp h
  refine ⟨(hslots.destroysLast_iff a).mp hlast, ?_⟩
  cases a with
  | checkpoint c => exact exists_dirty_of_attends hattends
  | load c id => exact fun sv hsv hfrom => unloaded_of_attends hattends hsv hfrom
  | _ => trivial

/-- The duties are done in a run whose steps pass the test. -/
theorem orderly_of_passes {boot : BootMem A elf} {steps : List (MemStep elf)} {va : LinAddr}
    (h : passes step (orderly va) (init boot) steps = true) :
    AllSteps step Orderly (init boot) steps :=
  allSteps_of_invariant (fun _ _ htest hwf => hwf.toSlots.orderly_of_test htest)
    (fun _ _ _ _ hwf hstep => step_wf hwf hstep) (wf_init boot) (passes_iff.mp h).1

/-- The table of something stays with it: it has one in its handler, or has not been unloaded. -/
def Attached (sv : Sv elf) : Prop :=
  sv.root = none → sv.unloaded = none

/-- What the duties say of something that exists. -/
structure Tidy (s : Sys A elf) (id : SvId) (sv : Sv elf) : Prop where
  /-- The table of a loaded instance stays with it. -/
  attached : sv.loadedOn ≠ none → Attached sv
  /-- State vectors are not loaded. -/
  unloaded : sv.isInstance = false → sv.unloaded = none
  /-- A checkpoint has a dirty page. -/
  dirty : sv.fromElf = false → sv.isInstance = false →
    ∃ w e, slotLeaf s.h (s.table id) w = some e ∧ e.dirty = true
  /-- An instance of a checkpoint has a table. -/
  root : sv.fromElf = false → sv.isInstance = true → sv.root ≠ none

/-- The duties have been kept. -/
def AllTidy (s : Sys A elf) : Prop :=
  ∀ id sv, s.svs id = some sv → s.Tidy id sv

/-- The other tables stay tidy. -/
theorem Effect.allTidy {root' : Option Pfn} (heffect : s.Effect id root' s') (hwf : s.Wf)
    (htidy : s.AllTidy) (hself : ∀ sv, s'.svs id = some sv → s'.Tidy id sv) : s'.AllTidy := by
  intro j svj hsvj
  by_cases hj : j = id
  · exact hj ▸ hself svj (hj ▸ hsvj)
  · rw [heffect.svs_of_ne j hj] at hsvj
    obtain ⟨hattached, hunloaded, hdirty, hroot⟩ := htidy j svj hsvj
    refine ⟨hattached, hunloaded, fun hcheckpoint hisSv => ?_, hroot⟩
    obtain ⟨w, e, hleaf, hd⟩ := hdirty hcheckpoint hisSv
    exact ⟨w, e, (heffect.slotLeaf_eq hwf hj w).trans hleaf, hd⟩

/-- An effect on the table of an instance that does not change otherwise. -/
theorem Effect.allTidy_of_svs_eq {root' : Option Pfn} (heffect : s.Effect id root' s')
    (hwf : s.Wf) (htidy : s.AllTidy) (hsvs : s'.svs = s.svs) : s'.AllTidy := by
  refine heffect.allTidy hwf htidy fun sv hsv => ?_
  rw [hsvs] at hsv
  obtain ⟨hattached, hunloaded, -, hroot⟩ := htidy id sv hsv
  have hisInstance := heffect.isInstance sv hsv
  refine ⟨hattached, hunloaded, fun _ hisSv => ?_, hroot⟩
  rw [hisInstance] at hisSv
  cases hisSv

/-- Every orderly step keeps the tables tidy. -/
theorem Stepped.allTidy (hwf : s.Wf) (htidy : s.AllTidy) (horderly : s.Orderly a)
    (hstep : s.Stepped a s') : s'.AllTidy := by
  obtain ⟨-, hduty⟩ := horderly
  cases hstep with
  | createSV image =>
    refine (effect_addSv (h := s.h) hwf.toSlots rfl (Builds.refl (by simp)).toEvolves).allTidy hwf
      htidy fun sv hsv => ?_
    obtain rfl := Option.some.inj ((svs_addSv_self ..).symm.trans hsv)
    exact ⟨fun hl => absurd rfl hl, fun _ => rfl, fun hfrom => (by cases hfrom),
      fun hfrom => (by cases hfrom)⟩
  | @newInstance src sv root h hsrc hisSv hcopy =>
    refine (effect_addSv hwf.toSlots rfl hcopy.builds.toEvolves).allTidy hwf htidy
      fun sv' hsv' => ?_
    obtain rfl := Option.some.inj ((svs_addSv_self ..).symm.trans hsv')
    refine ⟨fun hl => absurd rfl hl, fun _ => rfl, fun _ hisSv' => (by cases hisSv'),
      fun hfrom _ => ?_⟩
    obtain ⟨w, e, hleaf, hdirty⟩ := (htidy src sv hsrc).dirty hfrom hisSv
    obtain ⟨e', hleaf', -⟩ := hcopy.copied w e hleaf hdirty
    exact Option.isSome_iff_ne_none.mp (isSome_of_slotLeaf hleaf')
  | @load c id sv s' hempty hsv hisInstance hl hloaded =>
    refine (hloaded.effect hwf hempty hsv hisInstance hl).allTidy hwf htidy fun sv' hsv' => ?_
    rw [hloaded.svs, Function.update_self] at hsv'
    obtain rfl := Option.some.inj hsv'
    obtain ⟨-, hunloaded, -, hroot⟩ := htidy id sv hsv
    refine ⟨fun _ hnone => ?_, hunloaded, fun _ hisSv => ?_, hroot⟩
    · cases hfrom : sv.fromElf with
      | true => exact hduty sv hsv hfrom
      | false => exact absurd hnone (hroot hfrom hisInstance)
    · rw [show sv.isInstance = false from hisSv] at hisInstance
      cases hisInstance
  | @unload c id sv s' hid hsv hl hunloaded =>
    refine (hunloaded.effect hwf hid hsv hl).allTidy hwf htidy fun sv' hsv' => ?_
    rw [hunloaded.svs, Function.update_self] at hsv'
    obtain rfl := Option.some.inj hsv'
    have hisInstance := hwf.isInstance id sv c hsv hl
    have hnot : sv.isInstance ≠ false := by
      rw [hisInstance]
      decide
    exact ⟨fun hl' => absurd rfl hl', fun hisSv => absurd hisSv hnot,
      fun _ hisSv => absurd hisSv hnot, (htidy id sv hsv).root⟩
  | read hid hsv hl hvalid haccessed =>
    have htidy₁ := (haccessed.effect hwf hid hsv hl).allTidy_of_svs_eq hwf htidy haccessed.svs
    exact fun j svj hsvj =>
      have htidyj := htidy₁ j svj hsvj
      ⟨htidyj.attached, htidyj.unloaded, htidyj.dirty, htidyj.root⟩
  | write hid hsv hl hvalid haccessed hstored =>
    refine (write_effect hwf hid hsv hl haccessed hstored).allTidy_of_svs_eq hwf htidy ?_
    obtain ⟨h, rfl⟩ := hstored.frame
    exact haccessed.svs
  | @checkpoint c id sv root h hid hsv hl hcopy =>
    have heffect : s.Effect s.nextId (some root) ({ s with h }.addSv (sv.snapshot root)) :=
      effect_addSv hwf.toSlots
        (show (sv.snapshot root).loadedOn = none from rfl) hcopy.builds.toEvolves
    refine heffect.allTidy hwf htidy fun sv' hsv' => ?_
    obtain rfl := Option.some.inj ((svs_addSv_self ..).symm.trans hsv')
    refine ⟨fun hl' => absurd rfl hl', fun _ => rfl, fun _ _ => ?_,
      fun _ hisInstance => (by cases hisInstance)⟩
    obtain ⟨w, e, hleaf, hdirty⟩ := hduty
    rw [← table_of_loaded hsv hl] at hleaf
    obtain ⟨e', hleaf', hcopyOf⟩ := hcopy.copied w e hleaf hdirty
    rw [heffect.table_self]
    exact ⟨w, e', hleaf', hcopyOf.dirty⟩
  | @destroy id sv s' hsv hl hdestroyed =>
    intro j svj hsvj
    have hj : j ≠ id := by
      rintro rfl
      rw [hdestroyed.svs_self] at hsvj
      cases hsvj
    rw [hdestroyed.svs_of_ne hj] at hsvj
    obtain ⟨hattached, hunloaded, hdirty, hroot⟩ := htidy j svj hsvj
    refine ⟨hattached, hunloaded, fun hcheckpoint hisSv => ?_, hroot⟩
    obtain ⟨w, e, hleaf, hd⟩ := hdirty hcheckpoint hisSv
    exact ⟨w, e, (hdestroyed.slotLeaf_eq hj w).trans hleaf, hd⟩

/-! ## The simulation -/

/-- What something sees is what the machine with private copies holds for it. -/
def Sees (s : Sys A elf) (id : SvId) (sv : Sv elf) (p : PrivateCopies) : Prop :=
  ∃ content, p.contents id = some content ∧
    (Attached sv → ∀ va, validAddress va = true →
      content va.pageDown = s.pageContent id sv.image va)

/-- The machine with private copies holds what the memory machine denotes. -/
structure Simulates (mem₀ : Pfn → Page) (s : Sys A elf) (p : PrivateCopies) : Prop where
  /-- The same identifiers have been given out. -/
  nextId : p.nextId = s.nextId
  /-- The same instances are loaded. -/
  activeUmi : p.activeUmi = s.activeUmi
  /-- The guests have read the same values. -/
  reads : p.reads = s.reads
  /-- What exists sees what is held for it. -/
  sees : ∀ id sv, s.svs id = some sv → s.Sees id sv p
  /-- The ELF images have not been written. -/
  mem_eq : ∀ f ∈ elf, s.h.mem f = mem₀ f

variable {mem₀ : Pfn → Page} {p' : PrivateCopies}

/-- An effect keeps the relation when it does so for the table that it is on. -/
theorem Effect.simulates {root' : Option Pfn} (heffect : s.Effect id root' s') (hwf : s.Wf)
    (hshared : s.Shared) (hsim : Simulates mem₀ s p) (hnextId : p'.nextId = s'.nextId)
    (hactive : p'.activeUmi = s'.activeUmi) (hreads : p'.reads = s'.reads)
    (hcontents : ∀ j ≠ id, p'.contents j = p.contents j)
    (hself : ∀ sv, s'.svs id = some sv → s'.Sees id sv p') : Simulates mem₀ s' p' where
  nextId := hnextId
  activeUmi := hactive
  reads := hreads
  sees := by
    intro j svj hsvj
    by_cases hj : j = id
    · exact hj ▸ hself svj (hj ▸ hsvj)
    · rw [heffect.svs_of_ne j hj] at hsvj
      obtain ⟨content, hcontent, hsees⟩ := hsim.sees j svj hsvj
      refine ⟨content, (hcontents j hj).trans hcontent, fun hattached va hva => ?_⟩
      rw [heffect.pageContent_eq hwf hshared hsvj hj, hsees hattached va hva]
  mem_eq := fun f hf => (hwf.apart.pinned_mem_eq heffect.evolves hf).trans (hsim.mem_eq f hf)

/-- The guest on a core is the same in both machines. -/
theorem Simulates.active (hsim : Simulates mem₀ s p) (hid : s.activeUmi c = some id)
    {content : Content} (hcontent : p.contents id = some content) :
    p.active c = some (id, content) := by
  rw [PrivateCopies.active, hsim.activeUmi, hid, Option.bind_some, hcontent, Option.map_some]

/-- Something new sees the content it was made with. -/
theorem Simulates.add (hwf : s.Wf) (hshared : s.Shared) (hsim : Simulates mem₀ s p)
    {h : PhysMem A} (hl : sv.loadedOn = none)
    (hevolves : pageTables.Evolves SimplePte.rw GuestEntry pdptLevel s.h none h sv.root)
    {content : Content} (hcontent : ∀ va, validAddress va = true →
      content va.pageDown = ({ s with h }.addSv sv).pageContent s.nextId sv.image va) :
    Simulates mem₀ ({ s with h }.addSv sv) (p.add content) := by
  refine (effect_addSv hwf.toSlots hl hevolves).simulates hwf hshared hsim
    (congrArg (· + 1) hsim.nextId) hsim.activeUmi hsim.reads (fun j hj => ?_) fun sv' hsv' => ?_
  · exact p.contents_add_of_ne content (hsim.nextId ▸ hj)
  · obtain rfl := Option.some.inj ((svs_addSv_self ..).symm.trans hsv')
    refine ⟨content, ?_, fun _ => hcontent⟩
    rw [← hsim.nextId]
    exact p.contents_add_self content

/-- An access keeps what the instance sees. -/
theorem Accessed.simulates {vaddr : LinAddr} {wr : Bool} {e : SimplePte} (hwf : s.Wf)
    (hshared : s.Shared) (hid : s.activeUmi c = some id) (hsv : s.svs id = some sv)
    (hl : sv.loadedOn = some c) (hvalid : validAddress vaddr = true)
    (haccessed : s.Accessed c sv vaddr wr e s') (hsim : Simulates mem₀ s p) :
    Simulates mem₀ s' p := by
  refine (haccessed.effect hwf hid hsv hl).simulates hwf hshared hsim ?_ ?_ ?_ (fun _ _ => rfl)
    fun sv' hsv' => ?_
  · exact hsim.nextId.trans haccessed.nextId.symm
  · exact hsim.activeUmi.trans haccessed.activeUmi.symm
  · exact hsim.reads.trans haccessed.reads.symm
  · rw [haccessed.svs] at hsv'
    obtain rfl := Option.some.inj (hsv.symm.trans hsv')
    obtain ⟨content, hcontent, hsees⟩ := hsim.sees id sv hsv
    refine ⟨content, hcontent, fun hattached va hva => ?_⟩
    rw [haccessed.pageContent_eq hwf hshared hid hsv hl hvalid hva, hsees hattached va hva]

/-- What an access leads to is what the instance holds. -/
theorem Accessed.content_eq {vaddr : LinAddr} {wr : Bool} {e : SimplePte} {content : Content}
    (hsv : s'.svs id = some sv) (hl : sv.loadedOn = some c)
    (hvalid : validAddress vaddr = true) (haccessed : s.Accessed c sv vaddr wr e s')
    (hsees : ∀ va, validAddress va = true → content va.pageDown = s'.pageContent id sv.image va) :
    content vaddr.pageDown = some (s'.h.mem e.frame) := by
  rw [hsees vaddr hvalid, pageContent_of_leaf]
  rw [table_of_loaded hsv hl]
  exact haccessed.leaf

/-- A store writes the same word on both sides. -/
theorem Stored.simulates {vaddr : LinAddr} {e : SimplePte} {value mask : Word} {content : Content}
    (hwf : s.Wf) (hshared : s.Shared) (hsv : s.svs id = some sv) (hl : sv.loadedOn = some c)
    (hvalid : validAddress vaddr = true)
    (hleaf : slotLeaf s.h (s.getSlotPDPTRoot c) vaddr.path = some e) (hrw : e.rw = true)
    (hsees : ∀ va, validAddress va = true → content va.pageDown = s.pageContent id sv.image va)
    (hstored : s.Stored c vaddr e value mask s') (hsim : Simulates mem₀ s p) :
    Simulates mem₀ s' { p with
      contents := Function.update p.contents id (some (Function.update content vaddr.pageDown
        (some (Function.update (s.h.mem e.frame) vaddr.word
          (storeWord (s.h.mem e.frame vaddr.word) value mask))))) } := by
  rw [← table_of_loaded hsv hl] at hleaf
  have heffect := hstored.effect hwf hsv hl
  have hframe := hstored.frame
  refine heffect.simulates hwf hshared hsim ?_ ?_ ?_ (fun j hj => ?_) fun sv' hsv' => ?_
  · obtain ⟨h, rfl⟩ := hframe
    exact hsim.nextId
  · obtain ⟨h, rfl⟩ := hframe
    exact hsim.activeUmi
  · obtain ⟨h, rfl⟩ := hframe
    exact hsim.reads
  · exact Function.update_of_ne hj ..
  · obtain rfl : sv = sv' := by
      obtain ⟨h, rfl⟩ := hframe
      exact Option.some.inj (hsv.symm.trans hsv')
    refine ⟨_, Function.update_self .., fun _ va hva => ?_⟩
    by_cases hsame : va.pageDown = vaddr.pageDown
    · rw [hsame, Function.update_self, hstored.pageContent_self hwf hsv hl hvalid hva hsame]
    · rw [Function.update_of_ne hsame, hsees va hva,
        hstored.pageContent_of_ne hwf hshared hsv hl hleaf hrw hvalid hva hsame]

/-- What is destroyed is dropped, and the others keep what they see. -/
theorem Destroyed.simulates (hdestroyed : s.Destroyed id s') (hsim : Simulates mem₀ s p) :
    Simulates mem₀ s' { p with contents := Function.update p.contents id none } := by
  obtain ⟨h, hframe⟩ := hdestroyed.frame
  refine ⟨?_, ?_, ?_, fun j svj hsvj => ?_, fun f hf => ?_⟩
  · rw [hframe]
    exact hsim.nextId
  · rw [hframe]
    exact hsim.activeUmi
  · rw [hframe]
    exact hsim.reads
  · have hj : j ≠ id := by
      rintro rfl
      rw [hdestroyed.svs_self] at hsvj
      cases hsvj
    rw [hdestroyed.svs_of_ne hj] at hsvj
    obtain ⟨content, hcontent, hsees⟩ := hsim.sees j svj hsvj
    refine ⟨content, (Function.update_of_ne hj ..).trans hcontent, fun hattached va hva => ?_⟩
    rw [hsees hattached va hva, hdestroyed.pageContent_eq hj]
  · rw [hdestroyed.freed.mem]
    exact hsim.mem_eq f hf

/-- The machine with private copies takes every step as well. -/
theorem Stepped.simulates (hwf : s.Wf) (hshared : s.Shared) (hclean : s.Clean)
    (htidy : s.AllTidy) (hsim : Simulates mem₀ s p) (hstep : s.Stepped a s') :
    ∃ p', p.step mem₀ a = some p' ∧ Simulates mem₀ s' p' := by
  cases hstep with
  | createSV image =>
    refine ⟨_, rfl, hsim.add (h := s.h) hwf hshared rfl (Builds.refl (by simp)).toEvolves
      fun va hva => ?_⟩
    have heffect := effect_addSv (h := s.h) hwf.toSlots (show (Sv.ofImage image).loadedOn = none
      from rfl) (Builds.refl (by simp)).toEvolves
    rw [pageContent_of_no_leaf (by rw [heffect.table_self]; rfl), heffect.initialPage_eq hwf]
    exact (initialPage_congr va.pageDown_pageDown hsim.mem_eq).symm
  | @newInstance src sv root h hsrc hisSv hcopy =>
    obtain ⟨content, hcontent, hsees⟩ := hsim.sees src sv hsrc
    have hattached : Attached sv := fun _ => (htidy src sv hsrc).unloaded hisSv
    refine ⟨p.add content, by rw [PrivateCopies.step, hcontent, Option.map_some],
      hsim.add hwf hshared rfl hcopy.builds.toEvolves fun va hva => ?_⟩
    rw [hsees hattached va hva]
    exact (pageContent_of_copy hwf hshared hclean hsrc
      (show (sv.clone src root).loadedOn = none from rfl) hcopy hva).symm
  | @load c id sv s' hempty hsv hisInstance hl hloaded =>
    have heffect := hloaded.effect hwf hempty hsv hisInstance hl
    refine ⟨_, rfl, heffect.simulates hwf hshared hsim ?_ ?_ ?_ (fun _ _ => rfl)
      fun sv' hsv' => ?_⟩
    · exact hsim.nextId.trans hloaded.nextId.symm
    · rw [hloaded.activeUmi, ← hsim.activeUmi]
    · exact hsim.reads.trans hloaded.reads.symm
    · rw [hloaded.svs, Function.update_self] at hsv'
      obtain rfl := Option.some.inj hsv'
      obtain ⟨content, hcontent, hsees⟩ := hsim.sees id sv hsv
      refine ⟨content, hcontent, fun hattached va hva => ?_⟩
      rw [hsees hattached va hva, pageContent, pageContent, heffect.table_self, hloaded.h]
  | @unload c id sv s' hid hsv hl hunloaded =>
    have heffect := hunloaded.effect hwf hid hsv hl
    refine ⟨_, rfl, heffect.simulates hwf hshared hsim ?_ ?_ ?_ (fun _ _ => rfl)
      fun sv' hsv' => ?_⟩
    · exact hsim.nextId.trans hunloaded.nextId.symm
    · rw [hunloaded.activeUmi, ← hsim.activeUmi]
    · exact hsim.reads.trans hunloaded.reads.symm
    · rw [hunloaded.svs, Function.update_self] at hsv'
      obtain rfl := Option.some.inj hsv'
      obtain ⟨content, hcontent, hsees⟩ := hsim.sees id sv hsv
      refine ⟨content, hcontent, fun hattached va hva => ?_⟩
      obtain ⟨r, hr⟩ : ∃ r, sv.root = some r :=
        Option.ne_none_iff_exists'.mp fun hnone => (by cases hattached hnone)
      have htable : s.table id = sv.root :=
        (table_of_loaded hsv hl).trans ((hwf.root_of_loaded id sv c r hsv hl hr).trans hr.symm)
      have hsvAttached : Attached sv := fun hnone => by
        rw [hr] at hnone
        cases hnone
      rw [hsees hsvAttached va hva, pageContent, pageContent, heffect.table_self, htable,
        hunloaded.h]
  | @read c vaddr id sv e s₁ hid hsv hl hvalid haccessed =>
    have hsim₁ := haccessed.simulates hwf hshared hid hsv hl hvalid hsim
    have hwf₁ := haccessed.wf hwf hid hsv hl
    have hsv₁ : s₁.svs id = some sv := haccessed.svs ▸ hsv
    obtain ⟨content, hcontent, hsees⟩ := hsim₁.sees id sv hsv₁
    have hattached := (htidy id sv hsv).attached (by rw [hl]; exact Option.some_ne_none c)
    have hpage := haccessed.content_eq hsv₁ hl hvalid (hsees hattached)
    refine ⟨{ p with reads := (id, vaddr, s₁.h.mem e.frame vaddr.word) :: p.reads }, ?_, ?_⟩
    · simp [PrivateCopies.step, hsim.active hid hcontent, hpage]
    · exact ⟨hsim₁.nextId, hsim₁.activeUmi, congrArg _ hsim₁.reads, hsim₁.sees, hsim₁.mem_eq⟩
  | @write c vaddr value mask id sv e s₁ s' hid hsv hl hvalid haccessed hstored =>
    have hsim₁ := haccessed.simulates hwf hshared hid hsv hl hvalid hsim
    have hwf₁ := haccessed.wf hwf hid hsv hl
    have hshared₁ := haccessed.shared hwf hshared hid hsv hl
    have hsv₁ : s₁.svs id = some sv := haccessed.svs ▸ hsv
    obtain ⟨content, hcontent, hsees⟩ := hsim₁.sees id sv hsv₁
    have hattached := (htidy id sv hsv).attached (by rw [hl]; exact Option.some_ne_none c)
    have hpage := haccessed.content_eq hsv₁ hl hvalid (hsees hattached)
    refine ⟨_, ?_, hstored.simulates hwf₁ hshared₁ hsv₁ hl hvalid haccessed.leaf (haccessed.rw rfl)
      (hsees hattached) hsim₁⟩
    simp [PrivateCopies.step, hsim.active hid hcontent, hpage]
  | @checkpoint c id sv root h hid hsv hl hcopy =>
    obtain ⟨content, hcontent, hsees⟩ := hsim.sees id sv hsv
    have hattached := (htidy id sv hsv).attached (by rw [hl]; exact Option.some_ne_none c)
    refine ⟨p.add content, by rw [PrivateCopies.step, hsim.active hid hcontent, Option.map_some],
      hsim.add hwf hshared rfl hcopy.builds.toEvolves fun va hva => ?_⟩
    rw [hsees hattached va hva]
    exact (pageContent_of_copy hwf hshared hclean hsv
      (show (sv.snapshot root).loadedOn = none from rfl) hcopy hva).symm
  | @destroy id sv s' hsv hl hdestroyed => exact ⟨_, rfl, hdestroyed.simulates hsim⟩

/-! ## Runs -/

/-- The step changes no state vector: not what it is, and not what its pages hold. -/
def KeepsSnapshots (s : Sys A elf) (a : MemStep elf) : Prop :=
  ∀ s', s.step a = some s' → ∀ id sv, s.svs id = some sv → sv.isInstance = false →
    s'.svs id ≠ none → ∀ va, s'.pageContent id sv.image va = s.pageContent id sv.image va

/-- An access in a supported region is served, unless the allocator has no page left. -/
def ServesAccess (s : Sys A elf) (c : UmiCore) (vaddr : LinAddr) (wr : Bool) : Prop :=
  ∀ id sv, s.activeUmi c = some id → s.svs id = some sv →
    Supported sv.image.regions s.h.mem vaddr.pageDown wr →
    ∀ err, s.access c vaddr wr = .error err → err = .kbugon

/-- The guest's access, if the step is one, is served. -/
def Serves (s : Sys A elf) : MemStep elf → Prop
  | .read c vaddr => s.ServesAccess c vaddr false
  | .write c vaddr _ _ => s.ServesAccess c vaddr true
  | _ => True

/-- An access to a supported page fails only when memory has run out. -/
theorem Wf.servesAccess (hwf : s.Wf) (c : UmiCore) (vaddr : LinAddr) (wr : Bool) :
    s.ServesAccess c vaddr wr := by
  intro id sv hid hsv hsupported err herr
  obtain ⟨sv', hsv', hl⟩ := (hwf.activeUmi_iff c id).mp hid
  obtain rfl := Option.some.inj (hsv.symm.trans hsv')
  exact (access_accessed hwf hid hsv hl wr).of_eq_error herr hsupported

/-- So the accesses of every step are served. -/
theorem Wf.serves (hwf : s.Wf) (a : MemStep elf) : s.Serves a := by
  cases a with
  | read c vaddr => exact hwf.servesAccess c vaddr false
  | write c vaddr value mask => exact hwf.servesAccess c vaddr true
  | _ => trivial

/-- Copy on write behaves like private copies: in an orderly run the guests read the values that they
read when everything has its pages to itself, state vectors keep their content, and accesses in
supported regions are served while there is memory. -/
theorem privateCopies_run (boot : BootMem A elf) (steps : List (MemStep elf))
    (horderly : AllSteps step Orderly (init boot) steps) :
    (∀ s, Foundations.run step (init boot) steps = some s →
      ∃ p, Foundations.run (PrivateCopies.step boot.h.mem) PrivateCopies.init steps = some p ∧
        s.reads = p.reads ∧ ∀ id sv, s.svs id = some sv → s.Sees id sv p) ∧
    AllSteps step KeepsSnapshots (init boot) steps ∧ AllSteps step Serves (init boot) steps := by
  let I : Sys A elf → Prop := fun s => s.Wf ∧ s.Shared ∧ s.Clean ∧ s.AllTidy
  have hinit : I (init boot) := by
    refine ⟨wf_init boot, shared_init boot, fun _ _ _ _ _ hsv => ?_, fun _ _ hsv => ?_⟩
    · cases hsv
    · cases hsv
  have hI : ∀ (s : Sys A elf) a s', s.Orderly a → I s → s.step a = some s' → I s' := by
    rintro s a s' horderly ⟨hwf, hshared, hclean, htidy⟩ hstep
    have hstepped := step_stepped hwf hstep
    exact ⟨hstepped.wf hwf, hstepped.shared hwf hshared horderly.1,
      hstepped.clean hwf hshared hclean, hstepped.allTidy hwf htidy horderly⟩
  refine ⟨fun s hrun => ?_, ?_, ?_⟩
  · have hsim₀ : Simulates boot.h.mem (init boot) PrivateCopies.init :=
      ⟨rfl, rfl, rfl, fun _ _ hsv => (by cases hsv), fun _ _ => rfl⟩
    obtain ⟨p, hp, -, hsim⟩ := run_simulation
      (R := fun s p => I s ∧ Simulates boot.h.mem s p) (fun s p a s' horderly hs hstep => by
        obtain ⟨⟨hwf, hshared, hclean, htidy⟩, hsim⟩ := hs
        obtain ⟨p', hp', hsim'⟩ :=
          (step_stepped hwf hstep).simulates hwf hshared hclean htidy hsim
        exact ⟨p', hp', hI s a s' horderly ⟨hwf, hshared, hclean, htidy⟩ hstep, hsim'⟩)
      ⟨hinit, hsim₀⟩ horderly hrun
    exact ⟨p, hp, hsim.reads.symm, hsim.sees⟩
  · refine allSteps_of_invariant (I := I) (fun s a _ hs s' hstep id sv hsv hisSv hsv' va => ?_) hI
      hinit horderly
    exact (step_stepped hs.1 hstep).pageContent_sv hs.1 hs.2.1 hsv hisSv hsv' sv.image va
  · exact allSteps_of_invariant (I := I) (fun s a _ hs => hs.1.serves a) hI hinit horderly

/-- The run of a checkpoint and its clone is orderly, and no step of it stops a core. -/
theorem passes_cloneAndRead :
    passes step (orderly slotStartVAddr) (init twelveBoot) cloneAndRead = true := by
  rw [← tabulating_eq twelveFrames step]
  decide +kernel

/-- What the two instances read there with pages of their own: the clone of a checkpoint what the
checkpointed instance had written, not what it wrote later, and then each its own word. -/
theorem reads_cloneAndRead {p : PrivateCopies}
    (hp : Foundations.run (PrivateCopies.step twelveBoot.h.mem) PrivateCopies.init cloneAndRead =
      some p) :
    p.reads = [(3, slotStartVAddr, 3), (1, slotStartVAddr, 2), (3, slotStartVAddr, 1)] := by
  have hcopies : (Foundations.run (PrivateCopies.step twelveBoot.h.mem) PrivateCopies.init
      cloneAndRead).map (·.reads) =
        some [(3, slotStartVAddr, 3), (1, slotStartVAddr, 2), (3, slotStartVAddr, 1)] := by
    decide
  rw [hp] at hcopies
  exact Option.some.inj hcopies

/-- So they do with copy on write. -/
theorem privateCopies_clone :
    ∃ s, Foundations.run step (init twelveBoot) cloneAndRead = some s ∧
      s.reads = [(3, slotStartVAddr, 3), (1, slotStartVAddr, 2), (3, slotStartVAddr, 1)] := by
  obtain ⟨-, s, hrun⟩ := passes_iff.mp passes_cloneAndRead
  obtain ⟨p, hp, hreads, -⟩ :=
    (privateCopies_run twelveBoot _ (orderly_of_passes passes_cloneAndRead)).1 s hrun
  exact ⟨s, hrun, hreads.trans (reads_cloneAndRead hp)⟩

end Sys

end Umm
