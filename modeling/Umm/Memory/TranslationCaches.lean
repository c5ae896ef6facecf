import Umm.Memory.Content

/-!
# Translation caches

The memory machine translates every access by a walk.  A processor keeps translations, and may use one
that it kept instead of walking again.  `CachedSys` is the memory machine on such processors: each core
has a cache, which the processor fills and empties as it likes, and which `flushTranslationCaches` and
`invlpg` empty where the code calls them.  Both act on the core that executes them only.

The processor looks at the dirty flag of the translation that it uses, which may be an old one: it
writes the flag to the table when that translation does not have it.
-/

namespace Umm

open Foundations Foundations.Layout

variable {A : Allocator Pfn} {elf : Set Pfn}

namespace SimplePte

/-- One leaf is the other, but for the dirty flag, which it may not have. -/
def StandsFor (e e' : SimplePte) : Prop :=
  e = e' ∨ e.setDirty = e'

variable {e e' : SimplePte}

/-- A leaf stands for itself. -/
theorem StandsFor.refl (e : SimplePte) : e.StandsFor e :=
  Or.inl rfl

/-- It has the same frame. -/
theorem StandsFor.frame_eq (h : e.StandsFor e') : e.frame = e'.frame := by
  rcases h with rfl | rfl
  · rfl
  · exact (pageTabEntToPfn_setDirty e tblLevel).symm

/-- It has the same write permission. -/
theorem StandsFor.rw_eq (h : e.StandsFor e') : e.rw = e'.rw := by
  rcases h with rfl | rfl
  · rfl
  · exact (rw_setDirty e).symm

/-- A dirty leaf stands for itself only. -/
theorem StandsFor.eq_of_dirty (h : e.StandsFor e') (hdirty : e.dirty = true) : e = e' := by
  rcases h with rfl | rfl
  · rfl
  · exact (setDirty_of_dirty e hdirty).symm

/-- The flag may be set later. -/
theorem StandsFor.setDirty (h : e.StandsFor e') : e.StandsFor e'.setDirty := by
  rcases h with rfl | rfl
  · exact Or.inr rfl
  · exact Or.inr (setDirty_of_dirty _ (dirty_setDirty e)).symm

end SimplePte

/-- A translation in the cache of a processor. -/
structure CachedTranslation where
  /-- An address of the page. -/
  vaddr : LinAddr
  /-- The leaf that the walk found. -/
  pte : SimplePte

/-- The memory machine on processors with translation caches. -/
structure CachedSys (A : Allocator Pfn) (elf : Set Pfn) where
  /-- The memory of all instances. -/
  sys : Sys A elf
  /-- The translation cache of each core. -/
  tlb : UmiCore → List CachedTranslation

/-- One step of this machine. -/
inductive CachedStep (elf : Set Pfn) where
  /-- The processor of a core walks and keeps the translation of an address. -/
  | fill (c : UmiCore) (vaddr : LinAddr)
  /-- The processor of a core drops a translation. -/
  | evict (c : UmiCore) (i : ℕ)
  /-- A step of the memory machine.  An access uses the translation at index `i` of the cache, or the
  one at index `j` when it is retried after a fault, where these are for its page. -/
  | mem (a : MemStep elf) (i j : ℕ)

/-- The step of the memory machine. -/
def CachedStep.visible : CachedStep elf → Option (MemStep elf)
  | .fill _ _ | .evict _ _ => none
  | .mem a _ _ => some a

namespace CachedSys

/-- Nothing exists, and nothing is cached. -/
def init (boot : BootMem A elf) : CachedSys A elf where
  sys := .init boot
  tlb := fun _ => []

/-! ## The caches -/

/-- Replace the cache of a core. -/
def setTlb (t : CachedSys A elf) (c : UmiCore) (entries : List CachedTranslation) : CachedSys A elf :=
  { t with tlb := Function.update t.tlb c entries }

/-- `flushTranslationCaches`, on the core `c`. -/
def flushTranslationCaches (t : CachedSys A elf) (c : UmiCore) : CachedSys A elf :=
  t.setTlb c []

/-- `invlpg`, on the core `c`. -/
def invlpg (t : CachedSys A elf) (c : UmiCore) (vaddr : LinAddr) : CachedSys A elf :=
  t.setTlb c ((t.tlb c).filter fun x => x.vaddr.pageDown != vaddr.pageDown)

/-- The result of a walk on the core `c`. -/
def walk (t : CachedSys A elf) (c : UmiCore) (vaddr : LinAddr) : Option SimplePte :=
  slotLeaf t.sys.h (t.sys.getSlotPDPTRoot c) vaddr.path

/-- The processor keeps the translation of an address of the slot, if there is one. -/
def fill (t : CachedSys A elf) (c : UmiCore) (vaddr : LinAddr) : CachedSys A elf :=
  match t.walk c vaddr with
  | none => t
  | some pte => if validAddress vaddr then t.setTlb c (⟨vaddr, pte⟩ :: t.tlb c) else t

/-- The processor drops a translation. -/
def evict (t : CachedSys A elf) (c : UmiCore) (i : ℕ) : CachedSys A elf :=
  t.setTlb c ((t.tlb c).eraseIdx i)

/-- The cached translation at index `i`, if it is for the page of the address. -/
def hit (t : CachedSys A elf) (c : UmiCore) (vaddr : LinAddr) (i : ℕ) : Option SimplePte :=
  ((t.tlb c)[i]?.filter fun x => x.vaddr.pageDown == vaddr.pageDown).map CachedTranslation.pte

/-- The translation of an address that the processor uses. -/
def translation (t : CachedSys A elf) (c : UmiCore) (vaddr : LinAddr) (i : ℕ) : Option SimplePte :=
  (t.hit c vaddr i).or (t.walk c vaddr)

/-! ## Accesses -/

/-- The translation that the processor uses, if it allows the access. -/
def translate (t : CachedSys A elf) (c : UmiCore) (vaddr : LinAddr) (wr : Bool) (i : ℕ) :
    Option SimplePte :=
  (t.translation c vaddr i).filter fun e => !wr || e.rw

/-- `process_pagefault`: after a write to a page that was present, its translation is invalidated. -/
def processPagefault (t : CachedSys A elf) (c : UmiCore) (vaddr : LinAddr) (ec : PgFaultErrorCode) :
    Except Stop (CachedSys A elf) := do
  let sys ← t.sys.processPagefault c vaddr ec
  .ok (if ec.p && ec.wr then { t with sys }.invlpg c vaddr.pageDown else { t with sys })

/-- An access: when the processor does not allow it, the fault is handled and the access retried. -/
def access (t : CachedSys A elf) (c : UmiCore) (vaddr : LinAddr) (wr : Bool) (i j : ℕ) :
    Except Stop (SimplePte × CachedSys A elf) :=
  match t.translate c vaddr wr i with
  | some e => .ok (e, t)
  | none => do
    let t ← t.processPagefault c vaddr ⟨(t.translation c vaddr i).isSome, wr⟩
    match t.translate c vaddr wr j with
    | some e => .ok (e, t)
    | none => .error .hang

/-- A guest reads the word at an address. -/
def read (t : CachedSys A elf) (c : UmiCore) (vaddr : LinAddr) (i j : ℕ) :
    Except Stop (CachedSys A elf) := do
  let (id, _) ← t.sys.active c
  let (e, t) ← t.access c vaddr false i j
  let reads := (id, vaddr, t.sys.h.mem e.frame vaddr.word) :: t.sys.reads
  .ok { t with sys := { t.sys with reads } }

/-- The store of a write: the processor does not mark a page that its translation says is dirty. -/
def store (t : CachedSys A elf) (c : UmiCore) (vaddr : LinAddr) (e : SimplePte) (value mask : Word) :
    CachedSys A elf :=
  { t with
    sys := if e.dirty then t.sys.writeWord vaddr e value mask else t.sys.store c vaddr e value mask }

/-- A guest writes the bytes of `mask` of the word at an address. -/
def write (t : CachedSys A elf) (c : UmiCore) (vaddr : LinAddr) (value mask : Word) (i j : ℕ) :
    Except Stop (CachedSys A elf) := do
  let (e, t) ← t.access c vaddr true i j
  .ok (t.store c vaddr e value mask)

/-! ## The machine -/

/-- The core on which a step calls `flushTranslationCaches`: `slot_unload_instance` does, and
`copyInPages` of a checkpoint. -/
def flushes : MemStep elf → Option UmiCore
  | .unload c | .checkpoint c => some c
  | _ => none

/-- What a step of the memory machine does here. -/
def exec (t : CachedSys A elf) (i j : ℕ) : MemStep elf → Except Stop (CachedSys A elf)
  | .read c vaddr => t.read c vaddr i j
  | .write c vaddr value mask => t.write c vaddr value mask i j
  | a => do
    let sys ← t.sys.exec a
    match flushes a with
    | some c => .ok ({ t with sys }.flushTranslationCaches c)
    | none => .ok { t with sys }

/-- The machine: a step that stops the core is not taken. -/
def step (t : CachedSys A elf) : CachedStep elf → Option (CachedSys A elf)
  | .fill c vaddr => some (t.fill c vaddr)
  | .evict c i => some (t.evict c i)
  | .mem a i j => if t.sys.admits a then (t.exec i j a).toOption else none

/-! ## Coherence -/

/-- A cached translation is the one that a walk finds, but for a dirty flag that was set later. -/
def Reflects (s : Sys A elf) (c : UmiCore) (x : CachedTranslation) : Prop :=
  validAddress x.vaddr = true ∧
    ∃ e, slotLeaf s.h (s.getSlotPDPTRoot c) x.vaddr.path = some e ∧ x.pte.StandsFor e

/-- All cached translations are. -/
def Coherent (t : CachedSys A elf) : Prop :=
  ∀ c, ∀ x ∈ t.tlb c, Reflects t.sys c x

variable {s s' : Sys A elf} {t t' : CachedSys A elf} {c c' : UmiCore} {id : SvId} {sv : Sv elf}
  {vaddr : LinAddr} {x : CachedTranslation} {i j : ℕ}

/-- The cache of the core is the new one. -/
@[simp] theorem tlb_setTlb_self (t : CachedSys A elf) (c : UmiCore) (l : List CachedTranslation) :
    (t.setTlb c l).tlb c = l :=
  Function.update_self ..

/-- The other cores keep theirs. -/
theorem tlb_setTlb_of_ne (t : CachedSys A elf) (l : List CachedTranslation) (hc : c' ≠ c) :
    (t.setTlb c l).tlb c' = t.tlb c' :=
  Function.update_of_ne hc ..

/-- A cache is replaced by one that reflects the walks. -/
theorem Coherent.setTlb (hcoherent : t.Coherent) {l : List CachedTranslation}
    (hl : ∀ x ∈ l, Reflects t.sys c x) : (t.setTlb c l).Coherent := by
  intro c' x hx
  by_cases hc : c' = c
  · subst hc
    rw [tlb_setTlb_self] at hx
    exact hl x hx
  · rw [tlb_setTlb_of_ne t l hc] at hx
    exact hcoherent c' x hx

/-- The walk to a page with a cached translation. -/
theorem Reflects.walk (hx : Reflects s c x) (hvalid : validAddress vaddr = true)
    (hpage : x.vaddr.pageDown = vaddr.pageDown) :
    ∃ e, slotLeaf s.h (s.getSlotPDPTRoot c) vaddr.path = some e ∧ x.pte.StandsFor e := by
  obtain ⟨hxvalid, e, hleaf, hstands⟩ := hx
  have hsame := (samePage_iff_pageDown hxvalid hvalid).mpr hpage
  exact ⟨e, slotLeaf_of_samePage hsame ▸ hleaf, hstands⟩

/-- The translation that the processor uses stands for the one that a walk finds. -/
theorem translation_stands (hcoherent : t.Coherent) (hvalid : validAddress vaddr = true) (i : ℕ) :
    Option.Rel SimplePte.StandsFor (t.translation c vaddr i) (t.walk c vaddr) := by
  cases hhit : t.hit c vaddr i with
  | none =>
    rw [translation, hhit, Option.none_or]
    cases t.walk c vaddr with
    | none => exact .none
    | some e => exact .some (.refl e)
  | some e =>
    rw [translation, hhit, Option.some_or]
    rw [hit, Option.map_eq_some_iff] at hhit
    obtain ⟨x, hfilter, rfl⟩ := hhit
    obtain ⟨hget, hpage⟩ := Option.filter_eq_some_iff.mp hfilter
    obtain ⟨e', hleaf, hstands⟩ :=
      (hcoherent c x (List.mem_of_getElem? hget)).walk hvalid (beq_iff_eq.mp hpage)
    rw [walk, hleaf]
    exact .some hstands

/-- A fault happens on a present page or not, as the walk says. -/
theorem translation_isSome (hcoherent : t.Coherent) (hvalid : validAddress vaddr = true) (i : ℕ) :
    (t.translation c vaddr i).isSome = (t.walk c vaddr).isSome := by
  have hstands := translation_stands (c := c) hcoherent hvalid i
  generalize t.translation c vaddr i = a at hstands ⊢
  generalize t.walk c vaddr = b at hstands ⊢
  cases hstands <;> rfl

/-- A cached translation stands for one that the walk gives. -/
theorem translate_stands (hcoherent : t.Coherent) (hvalid : validAddress vaddr = true) (wr : Bool)
    (i : ℕ) : Option.Rel SimplePte.StandsFor (t.translate c vaddr wr i) (t.sys.translate c vaddr wr) := by
  have hstands := translation_stands (c := c) hcoherent hvalid i
  rw [translate, Sys.translate]
  unfold walk at hstands
  generalize t.translation c vaddr i = a at hstands
  generalize slotLeaf t.sys.h (t.sys.getSlotPDPTRoot c) vaddr.path = b at hstands
  cases hstands with
  | none => exact .none
  | @some e e' h =>
    rw [Option.filter_some, Option.filter_some, h.rw_eq]
    cases !wr || e'.rw with
    | false => exact .none
    | true => exact .some h

/-! ## The other cores -/

/-- A cached translation stays valid when the instance on its core keeps its leaves. -/
theorem Reflects.of_others (hslots : s.Slots) (hx : Reflects s c x) (hid : s.activeUmi c ≠ some id)
    (hsvs : ∀ j ≠ id, s'.svs j = s.svs j)
    (hleaf : ∀ j ≠ id, ∀ v, slotLeaf s'.h (s'.table j) v = slotLeaf s.h (s.table j) v) :
    Reflects s' c x := by
  obtain ⟨hvalid, e, hwalk, hstands⟩ := hx
  cases hactive : s.activeUmi c with
  | none =>
    -- an empty slot has no table
    rw [Sys.getSlotPDPTRoot_of_clear (hslots.pml4_of_empty c hactive)] at hwalk
    cases hwalk
  | some j =>
    have hj : j ≠ id := fun heq => hid (heq ▸ hactive)
    obtain ⟨sv, hsv, hloaded⟩ := (hslots.activeUmi_iff c j).mp hactive
    refine ⟨hvalid, e, ?_, hstands⟩
    rw [← Sys.table_of_loaded ((hsvs j hj).trans hsv) hloaded, hleaf j hj,
      Sys.table_of_loaded hsv hloaded, hwalk]

/-- What a step does to another table does not matter to a cache. -/
theorem Reflects.of_effect {root' : Option Pfn} (hwf : s.Wf) (heffect : s.Effect id root' s')
    (hid : s.activeUmi c ≠ some id) (hx : Reflects s c x) : Reflects s' c x :=
  hx.of_others hwf.toSlots hid heffect.svs_of_ne fun _ hj v => heffect.slotLeaf_eq hwf hj v

/-- Nor does a destruction. -/
theorem Reflects.of_destroyed (hwf : s.Wf) (hdestroyed : s.Destroyed id s')
    (hid : s.activeUmi c ≠ some id) (hx : Reflects s c x) : Reflects s' c x :=
  hx.of_others hwf.toSlots hid (fun _ hj => hdestroyed.svs_of_ne hj)
    fun _ hj v => hdestroyed.slotLeaf_eq hj v

/-- An instance is in one slot at most. -/
theorem activeUmi_ne (hslots : s.Slots) (hid : s.activeUmi c = some id) (hc : c' ≠ c) :
    s.activeUmi c' ≠ some id := by
  intro hid'
  obtain ⟨sv, hsv, hloaded⟩ := (hslots.activeUmi_iff c id).mp hid
  obtain ⟨sv', hsv', hloaded'⟩ := (hslots.activeUmi_iff c' id).mp hid'
  obtain rfl := Option.some.inj (hsv.symm.trans hsv')
  exact hc (Option.some.inj (hloaded'.symm.trans hloaded))

/-- What is in no slot is not on a core. -/
theorem activeUmi_ne_of_unloaded (hslots : s.Slots) (hid : ∀ sv, s.svs id = some sv → sv.loadedOn = none)
    (c : UmiCore) : s.activeUmi c ≠ some id := by
  intro hactive
  obtain ⟨sv, hsv, hloaded⟩ := (hslots.activeUmi_iff c id).mp hactive
  rw [hid sv hsv] at hloaded
  cases hloaded

/-- The next identifier is in no slot. -/
theorem activeUmi_ne_nextId (hslots : s.Slots) (c : UmiCore) : s.activeUmi c ≠ some s.nextId := by
  refine activeUmi_ne_of_unloaded hslots (fun sv hsv => ?_) c
  rw [hslots.fresh s.nextId (Nat.le_refl _)] at hsv
  cases hsv

/-! ## Page faults -/

/-- A page fault keeps the caches coherent: a page that has a translation in the cache of its core was
present, and its translation is invalidated. -/
theorem Coherent.processPagefault (hcoherent : t.Coherent) (hwf : t.sys.Wf)
    (hid : t.sys.activeUmi c = some id) (hsv : t.sys.svs id = some sv) (hloaded : sv.loadedOn = some c)
    (hvalid : validAddress vaddr = true) {ec : PgFaultErrorCode}
    (hec : (ec.p && ec.wr) = false → t.walk c vaddr = none)
    (hfaulted : t.sys.Faulted c sv vaddr ec s') :
    (if ec.p && ec.wr then { t with sys := s' }.invlpg c vaddr.pageDown
      else { t with sys := s' }).Coherent := by
  have hothers : ∀ c' ≠ c, ∀ x ∈ t.tlb c', Reflects s' c' x := fun c' hc' x hx =>
    (hcoherent c' x hx).of_effect hwf (hfaulted.effect hwf hid hsv hloaded)
      (activeUmi_ne hwf.toSlots hid hc')
  have hkept : ∀ x ∈ t.tlb c, x.vaddr.pageDown ≠ vaddr.pageDown → Reflects s' c x := by
    intro x hx hpage
    obtain ⟨hxvalid, e, hleaf, hstands⟩ := hcoherent c x hx
    refine ⟨hxvalid, e, ?_, hstands⟩
    rw [hfaulted.kept _ fun hsame => hpage ((samePage_iff_pageDown hxvalid hvalid).mp hsame), hleaf]
  cases hinvalidates : (ec.p && ec.wr) with
  | true =>
    rw [if_pos rfl]
    intro c' x hx
    by_cases hc : c' = c
    · subst hc
      rw [invlpg, tlb_setTlb_self, List.mem_filter, bne_iff_ne, LinAddr.pageDown_pageDown] at hx
      exact hkept x hx.1 hx.2
    · rw [invlpg, tlb_setTlb_of_ne _ _ hc] at hx
      exact hothers c' hc x hx
  | false =>
    rw [if_neg Bool.false_ne_true]
    intro c' x hx
    by_cases hc : c' = c
    · subst hc
      refine hkept x hx fun hpage => ?_
      obtain ⟨e, hleaf, -⟩ := (hcoherent c' x hx).walk hvalid hpage
      have hnone := hec hinvalidates
      rw [walk, hleaf] at hnone
      cases hnone
    · exact hothers c' hc x hx

/-! ## Accesses -/

/-- The two machines handle a page fault in the same way. -/
theorem processPagefault_lockstep (hcoherent : t.Coherent) (hwf : t.sys.Wf)
    (hid : t.sys.activeUmi c = some id) (hsv : t.sys.svs id = some sv) (hloaded : sv.loadedOn = some c)
    (hvalid : validAddress vaddr = true) {ec : PgFaultErrorCode}
    (hec : (ec.p && ec.wr) = false → t.walk c vaddr = none) :
    Lockstep (fun t' s' => t'.sys = s' ∧ t'.Coherent) (t.processPagefault c vaddr ec)
      (t.sys.processPagefault c vaddr ec) := by
  rw [← bind_pure (t.sys.processPagefault c vaddr ec), CachedSys.processPagefault]
  refine (Sys.processPagefault_faulted hwf hid hsv hloaded ec).lockstep.bind ?_
  rintro s' _ ⟨rfl, hfaulted⟩
  refine ⟨?_, hcoherent.processPagefault hwf hid hsv hloaded hvalid hec hfaulted⟩
  split <;> rfl

/-- An access ends with a translation that stands for the one that a walk finds. -/
theorem access_lockstep (hcoherent : t.Coherent) (hwf : t.sys.Wf)
    (hid : t.sys.activeUmi c = some id) (hsv : t.sys.svs id = some sv) (hloaded : sv.loadedOn = some c)
    (hvalid : validAddress vaddr = true) (wr : Bool) (i j : ℕ) :
    Lockstep (fun p q => p.1.StandsFor q.1 ∧ p.2.sys = q.2 ∧ p.2.Coherent) (t.access c vaddr wr i j)
      (t.sys.access c vaddr wr) := by
  have hstands := translate_stands (c := c) hcoherent hvalid wr i
  unfold access Sys.access
  generalize t.translate c vaddr wr i = a at hstands ⊢
  generalize htranslate : t.sys.translate c vaddr wr = b at hstands ⊢
  cases hstands with
  | some hstands => exact ⟨hstands, rfl, hcoherent⟩
  | none =>
    -- a read of a present page would have been translated
    have hec : ((t.walk c vaddr).isSome && wr) = false → t.walk c vaddr = none := by
      intro hec
      cases hwalk : t.walk c vaddr with
      | none => rfl
      | some e =>
        rw [hwalk, Option.isSome_some, Bool.true_and] at hec
        rw [Sys.translate_eq_some.mpr ⟨hwalk, fun hwr => absurd (hec ▸ hwr) (by decide)⟩]
          at htranslate
        cases htranslate
    rw [translation_isSome hcoherent hvalid]
    refine (processPagefault_lockstep hcoherent hwf hid hsv hloaded hvalid hec).bind ?_
    rintro t' _ ⟨rfl, hcoherent'⟩
    have hstands' := translate_stands (c := c) hcoherent' hvalid wr j
    generalize t'.translate c vaddr wr j = a' at hstands' ⊢
    generalize t'.sys.translate c vaddr wr = b' at hstands' ⊢
    cases hstands' with
    | some hstands' => exact ⟨hstands', rfl, hcoherent'⟩
    | none => rfl

/-- A store marks the page in the table unless the translation is dirty, and then so is the leaf. -/
theorem store_sys {e e' : SimplePte} (hstands : e.StandsFor e')
    (hleaf : slotLeaf t.sys.h (t.sys.getSlotPDPTRoot c) vaddr.path = some e') (value mask : Word) :
    (t.store c vaddr e value mask).sys = t.sys.store c vaddr e' value mask := by
  cases hdirty : e.dirty with
  | true =>
    obtain rfl := hstands.eq_of_dirty hdirty
    rw [store, hdirty, if_pos rfl, Sys.store_of_dirty hleaf hdirty]
  | false =>
    rw [store, hdirty, if_neg Bool.false_ne_true, Sys.store, Sys.store, hstands.frame_eq]

/-- A store keeps the caches coherent: it sets the dirty flag of one leaf. -/
theorem Coherent.stored (hcoherent : t.Coherent) (hwf : t.sys.Wf)
    (hid : t.sys.activeUmi c = some id) (hsv : t.sys.svs id = some sv) (hloaded : sv.loadedOn = some c)
    {e : SimplePte} {value mask : Word}
    (hleaf : slotLeaf t.sys.h (t.sys.getSlotPDPTRoot c) vaddr.path = some e)
    (hstored : t.sys.Stored c vaddr e value mask s') : ({ t with sys := s' } : CachedSys A elf).Coherent := by
  have hroot : s'.getSlotPDPTRoot c = t.sys.getSlotPDPTRoot c := by
    obtain ⟨h, rfl⟩ := hstored.frame
    rfl
  intro c' x hx
  by_cases hc : c' = c
  · subst hc
    obtain ⟨hxvalid, e', hleaf', hstands⟩ := hcoherent c' x hx
    by_cases hsame : SamePage x.vaddr.path vaddr.path
    · obtain rfl : e' = e :=
        Option.some.inj (hleaf'.symm.trans ((slotLeaf_of_samePage hsame).trans hleaf))
      exact ⟨hxvalid, e'.setDirty, hroot ▸ hstored.marked _ hsame, hstands.setDirty⟩
    · refine ⟨hxvalid, e', ?_, hstands⟩
      rw [hroot, hstored.kept _ hsame, hleaf']
  · exact (hcoherent c' x hx).of_effect hwf (hstored.effect hwf hsv hloaded)
      (activeUmi_ne hwf.toSlots hid hc)

/-! ## The steps -/

/-- The core whose slot a step changes, of those with a slot that was not empty. -/
def changes : MemStep elf → Option UmiCore
  | .unload c | .read c _ | .write c _ _ _ => some c
  | _ => none

/-- A step keeps the cached translations of the other cores. -/
theorem Reflects.of_stepped {a : MemStep elf} (hwf : s.Wf) (hstep : s.Stepped a s')
    (hc : changes a ≠ some c) (hx : Reflects s c x) : Reflects s' c x := by
  have hnew := activeUmi_ne_nextId hwf.toSlots c
  cases hstep with
  | createSV image =>
    exact hx.of_effect hwf (Sys.effect_addSv (h := s.h) hwf.toSlots
      (show (Sv.ofImage image).loadedOn = none from rfl) (Builds.refl (by simp)).toEvolves) hnew
  | newInstance hsrc hisSv hcopy =>
    exact hx.of_effect hwf (Sys.effect_addSv hwf.toSlots rfl hcopy.builds.toEvolves) hnew
  | @load c' id sv s' hempty hsv hisInstance hl hloaded =>
    refine hx.of_effect hwf (hloaded.effect hwf hempty hsv hisInstance hl)
      (activeUmi_ne_of_unloaded hwf.toSlots (fun sv' hsv' => ?_) c)
    rwa [← Option.some.inj (hsv.symm.trans hsv')]
  | unload hid hsv hl hunloaded =>
    exact hx.of_effect hwf (hunloaded.effect hwf hid hsv hl)
      (activeUmi_ne hwf.toSlots hid fun heq => hc (heq ▸ rfl))
  | read hid hsv hl hvalid haccessed =>
    have hx' := hx.of_effect hwf (haccessed.effect hwf hid hsv hl)
      (activeUmi_ne hwf.toSlots hid fun heq => hc (heq ▸ rfl))
    exact hx'
  | write hid hsv hl hvalid haccessed hstored =>
    exact hx.of_effect hwf (Sys.write_effect hwf hid hsv hl haccessed hstored)
      (activeUmi_ne hwf.toSlots hid fun heq => hc (heq ▸ rfl))
  | checkpoint hid hsv hl hcopy =>
    exact hx.of_effect hwf (Sys.effect_addSv hwf.toSlots rfl hcopy.builds.toEvolves) hnew
  | @destroy id sv s' hsv hl hdestroyed =>
    refine hx.of_destroyed hwf hdestroyed
      (activeUmi_ne_of_unloaded hwf.toSlots (fun sv' hsv' => ?_) c)
    rwa [← Option.some.inj (hsv.symm.trans hsv')]

/-- A read with caches does what a read does. -/
theorem read_lockstep (hcoherent : t.Coherent) (hwf : t.sys.Wf)
    (hactive : (t.sys.activeUmi c).isSome = true) (hvalid : validAddress vaddr = true) (i j : ℕ) :
    Lockstep (fun t' s' => t'.sys = s' ∧ t'.Coherent) (t.read c vaddr i j) (t.sys.read c vaddr) := by
  obtain ⟨id, sv, hid, hsv, hloaded⟩ := hwf.exists_active hactive
  have haccess := access_lockstep hcoherent hwf hid hsv hloaded hvalid false i j
  unfold CachedSys.read Sys.read
  rw [Sys.active_eq hid hsv]
  refine lockstep_ok_bind.mpr (haccess.bind ?_)
  rintro ⟨e, t'⟩ ⟨e', _⟩ ⟨hstands, rfl, hcoherent'⟩
  refine ⟨?_, hcoherent'⟩
  rw [hstands.frame_eq]

/-- So does a write. -/
theorem write_lockstep (hcoherent : t.Coherent) (hwf : t.sys.Wf)
    (hactive : (t.sys.activeUmi c).isSome = true) (hvalid : validAddress vaddr = true)
    (value mask : Word) (i j : ℕ) :
    Lockstep (fun t' s' => t'.sys = s' ∧ t'.Coherent) (t.write c vaddr value mask i j)
      (t.sys.write c vaddr value mask) := by
  obtain ⟨id, sv, hid, hsv, hloaded⟩ := hwf.exists_active hactive
  have haccess := access_lockstep hcoherent hwf hid hsv hloaded hvalid true i j
  refine (haccess.and_outcome (Sys.access_accessed hwf hid hsv hloaded true)).bind ?_
  rintro ⟨e, t'⟩ ⟨e', _⟩ ⟨⟨hstands, rfl, hcoherent'⟩, haccessed⟩
  have hwf' := haccessed.wf hwf hid hsv hloaded
  have hsv' := haccessed.svs ▸ hsv
  have hstored := Sys.store_stored (hwf'.slot_mappable hsv' hloaded) haccessed.leaf
    (haccessed.rw rfl) value mask
  have hsys := store_sys hstands haccessed.leaf value mask
  refine ⟨hsys, ?_⟩
  rw [← hsys] at hstored
  exact hcoherent'.stored hwf' (haccessed.activeUmi ▸ hid) hsv' hloaded haccessed.leaf hstored

/-- The steps that are no accesses: the caches that they do not empty stay coherent. -/
theorem other_lockstep {a : MemStep elf} (hcoherent : t.Coherent) (hwf : t.sys.Wf)
    (hadmits : t.sys.admits a = true)
    (hexec : t.exec i j a = do
      let sys ← t.sys.exec a
      match flushes a with
      | some c => .ok ({ t with sys }.flushTranslationCaches c)
      | none => .ok { t with sys })
    (hflushes : ∀ c, changes a = some c → flushes a = some c) :
    Lockstep (fun t' s' => t'.sys = s' ∧ t'.Coherent) (t.exec i j a) (t.sys.exec a) := by
  rw [hexec, ← bind_pure (t.sys.exec a), bind_assoc]
  refine (Sys.exec_stepped hwf hadmits).lockstep.bind ?_
  rintro s' _ ⟨rfl, hstepped⟩
  cases hflush : flushes a with
  | none =>
    refine ⟨rfl, fun c x hx => (hcoherent c x hx).of_stepped hwf hstepped fun hc => ?_⟩
    rw [hflushes c hc] at hflush
    cases hflush
  | some c =>
    refine ⟨rfl, fun c' x hx => ?_⟩
    by_cases hc : c' = c
    · rw [hc, flushTranslationCaches, tlb_setTlb_self] at hx
      cases hx
    · rw [flushTranslationCaches, tlb_setTlb_of_ne _ _ hc] at hx
      refine (hcoherent c' x hx).of_stepped hwf hstepped fun hc' => hc ?_
      rw [hflushes c' hc'] at hflush
      exact Option.some.inj hflush

/-- The two machines perform a step in lockstep. -/
theorem exec_lockstep {a : MemStep elf} (hcoherent : t.Coherent) (hwf : t.sys.Wf)
    (hadmits : t.sys.admits a = true) (i j : ℕ) :
    Lockstep (fun t' s' => t'.sys = s' ∧ t'.Coherent) (t.exec i j a) (t.sys.exec a) := by
  cases a with
  | read c vaddr =>
    obtain ⟨hactive, hvalid⟩ := Bool.and_eq_true_iff.mp hadmits
    exact read_lockstep hcoherent hwf hactive hvalid i j
  | write c vaddr value mask =>
    obtain ⟨hactive, hvalid⟩ := Bool.and_eq_true_iff.mp hadmits
    exact write_lockstep hcoherent hwf hactive hvalid value mask i j
  | unload c => exact other_lockstep hcoherent hwf hadmits rfl fun _ hc => hc
  | createSV | newInstance | load | checkpoint | destroy =>
    exact other_lockstep hcoherent hwf hadmits rfl fun _ hc => by cases hc

/-- A walk may fill the cache. -/
theorem Coherent.fill (hcoherent : t.Coherent) (c : UmiCore) (vaddr : LinAddr) :
    (t.fill c vaddr).Coherent := by
  cases hwalk : t.walk c vaddr with
  | none =>
    simp only [CachedSys.fill, hwalk]
    exact hcoherent
  | some pte =>
    simp only [CachedSys.fill, hwalk]
    by_cases hvalid : validAddress vaddr = true
    · rw [if_pos hvalid]
      refine hcoherent.setTlb fun x hx => ?_
      rcases List.mem_cons.mp hx with rfl | hx
      · exact ⟨hvalid, pte, hwalk, .refl pte⟩
      · exact hcoherent c x hx
    · rw [if_neg hvalid]
      exact hcoherent

/-- A translation may be evicted. -/
theorem Coherent.evict (hcoherent : t.Coherent) (c : UmiCore) (i : ℕ) : (t.evict c i).Coherent :=
  hcoherent.setTlb fun x hx => hcoherent c x (List.mem_of_mem_eraseIdx hx)

/-- A fill changes nothing but the cache. -/
theorem fill_sys (t : CachedSys A elf) (c : UmiCore) (vaddr : LinAddr) :
    (t.fill c vaddr).sys = t.sys := by
  unfold CachedSys.fill
  split
  · rfl
  · split <;> rfl

/-- What the processor does with its caches changes no memory. -/
theorem step_silent {a : CachedStep elf} (ha : a.visible = none) :
    (t.step a).map CachedSys.sys = some t.sys := by
  cases a with
  | fill c vaddr => exact congrArg some (fill_sys t c vaddr)
  | evict c i => rfl
  | mem a i j => cases ha

/-- A step of the memory machine does on such processors what it does on those that always walk. -/
theorem step_visible {a : CachedStep elf} {b : MemStep elf} (hcoherent : t.Coherent) (hwf : t.sys.Wf)
    (ha : a.visible = some b) : (t.step a).map CachedSys.sys = t.sys.step b := by
  cases a with
  | fill c vaddr => cases ha
  | evict c i => cases ha
  | mem a i j =>
    obtain rfl := Option.some.inj ha
    rw [CachedSys.step, Sys.step]
    by_cases hadmits : t.sys.admits a = true
    · rw [if_pos hadmits, if_pos hadmits]
      exact (exec_lockstep hcoherent hwf hadmits i j).map_toOption fun _ _ h => h.1
    · rw [if_neg hadmits, if_neg hadmits]
      rfl

/-- Every step keeps the invariant of the memory. -/
theorem step_wf {a : CachedStep elf} (hcoherent : t.Coherent) (hwf : t.sys.Wf)
    (hstep : t.step a = some t') : t'.sys.Wf := by
  cases hvisible : a.visible with
  | none =>
    have hsilent := step_silent (t := t) hvisible
    rw [hstep] at hsilent
    rw [show t'.sys = t.sys from Option.some.inj hsilent]
    exact hwf
  | some b =>
    have hvisible := step_visible hcoherent hwf hvisible
    rw [hstep] at hvisible
    exact Sys.step_wf hwf hvisible.symm

/-- Every step keeps the caches coherent. -/
theorem step_coherent {a : CachedStep elf} (hcoherent : t.Coherent) (hwf : t.sys.Wf)
    (hstep : t.step a = some t') : t'.Coherent := by
  cases a with
  | fill c vaddr => exact Option.some.inj hstep ▸ hcoherent.fill c vaddr
  | evict c i => exact Option.some.inj hstep ▸ hcoherent.evict c i
  | mem a i j =>
    obtain ⟨hadmits, hexec⟩ := guarded_eq_some.mp hstep
    obtain ⟨s', -, -, hcoherent'⟩ := (exec_lockstep hcoherent hwf hadmits i j).of_eq_ok hexec
    exact hcoherent'

/-- The memory machine runs on processors with translation caches as it does on those without: whatever
they keep and drop, no access uses a translation that a walk would not find, and memory, the slots and
what the guests read are the same. -/
theorem run_cached_eq_run (boot : BootMem A elf) (steps : List (CachedStep elf)) :
    (Foundations.run step (.init boot) steps).map sys =
        Foundations.run Sys.step (.init boot) (steps.filterMap CachedStep.visible) ∧
      AllStates step Coherent (.init boot) steps := by
  have hinit : (init boot : CachedSys A elf).Coherent ∧ (init boot : CachedSys A elf).sys.Wf :=
    ⟨fun c x hx => (by cases hx), Sys.wf_init boot⟩
  have hkeeps : ∀ (t : CachedSys A elf) a t', t.Coherent ∧ t.sys.Wf → t.step a = some t' →
      t'.Coherent ∧ t'.sys.Wf := fun t a t' h hstep =>
    ⟨step_coherent h.1 h.2 hstep, step_wf h.1 h.2 hstep⟩
  constructor
  · exact map_run_eq_run_filterMap hkeeps (fun t a _ ha => step_silent ha)
      (fun t a b h ha => step_visible h.1 h.2 ha) hinit
  · exact allStates_of_invariant' (fun t h => h.1) hkeeps hinit

end CachedSys

end Umm
