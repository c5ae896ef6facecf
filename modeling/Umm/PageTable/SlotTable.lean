import Umm.PageTable.UmPgTblMgr

/-!
# Slot page tables

A slot page table is a table of the level below the top: its entries are accessed, its leaves map 4K
pages, and it owns the frames of the leaves with write access.  `slotLeaf` is what the walk along a
path finds in it.

The two rules of this file are those of mapping a page and of freeing a table.
-/

namespace Umm

open Foundations Foundations.Layout

variable {A : Allocator Pfn}

/-- What holds of every entry of a slot page table: it is accessed, and maps no large page. -/
def SlotEntry (lvl : ℕ) (e : SimplePte) : Prop :=
  e.a = true ∧ (e.isLeaf lvl = true → lvl = tblLevel)

/-- An entry of the level maps no large page. -/
def LeafAtTable (l : ℕ) (e : SimplePte) : Prop :=
  e.isLeaf l = true → l = tblLevel

/-- What the processor may do to an entry: it sets the bits that record accesses. -/
structure Marks (f : SimplePte → SimplePte) : Prop where
  /-- The entry leads to the same frame. -/
  keepsNext : pageTables.KeepsNext f
  /-- An accessed entry stays accessed. -/
  a : ∀ e, e.a = true → (f e).a = true
  /-- It allows the same accesses. -/
  permissions : ∀ e, (f e).rw = e.rw ∧ (f e).us = e.us ∧ (f e).xd = e.xd

theorem marks_setDirty : Marks SimplePte.setDirty where
  keepsNext :=
    { present := SimplePte.sel_setDirty
      isLeaf := fun l e => by simp [pageTables, SimplePte.isLeaf]
      next := fun l e => SimplePte.pageTabEntToPfn_setDirty e l }
  a := fun e he => by rw [SimplePte.a_setDirty, he]
  permissions := fun e =>
    ⟨SimplePte.rw_setDirty e, SimplePte.us_setDirty e, SimplePte.xd_setDirty e⟩

/-- A property of the entries of a table without large pages that the entries made by the page-table
manager have, and that the processor does not change. -/
class EntryKind (P : ℕ → SimplePte → Prop) : Prop where
  /-- The links have it. -/
  link : ∀ l c, 2 ≤ l → P l (pageTables.link c)
  /-- The accessed leaves have it. -/
  leaf : ∀ e, e.a = true → P tblLevel e
  /-- No large page has it. -/
  level : ∀ l e, P l e → LeafAtTable l e
  /-- An entry that is marked keeps it. -/
  mark : ∀ f l e, Marks f → P l e → P l (f e)

/-- An entry of a table that a guest runs with: above `TBL_LEVEL`, it allows all accesses that the
leaves allow. -/
def GuestEntry (lvl : ℕ) (e : SimplePte) : Prop :=
  SlotEntry lvl e ∧ (e.isLeaf lvl = false → e.rw = true ∧ e.us = true ∧ e.xd = false)

/-- A tree of tables in use with entries as in a slot page table, which owns the frames of the leaves
that `own` accepts. -/
abbrev TableOf (own : SimplePte → Bool) (h : PhysMem A) (t : Pfn) : Prop :=
  pageTables.Mappable own SlotEntry pdptLevel h t

/-- Such a table has been built, or more of it. -/
abbrev BuildsOf (own : SimplePte → Bool) (h : PhysMem A) (root : Option Pfn) (h' : PhysMem A)
    (root' : Option Pfn) : Prop :=
  pageTables.Builds own SlotEntry pdptLevel h root h' root'

/-- Such a table has what it had, and everything that has been allocated. -/
abbrev ClaimsOf (own : SimplePte → Bool) (h : PhysMem A) (root : Option Pfn) (h' : PhysMem A)
    (root' : Option Pfn) : Prop :=
  pageTables.Claims own pdptLevel h root h' root'

/-- A slot page table: it owns the frames of its writable leaves. -/
abbrev SlotTable (h : PhysMem A) (t : Pfn) : Prop :=
  pageTables.Mappable SimplePte.rw GuestEntry pdptLevel h t

/-- A slot page table has been built, or more of it. -/
abbrev SlotBuilds (h : PhysMem A) (root : Option Pfn) (h' : PhysMem A) (root' : Option Pfn) :
    Prop :=
  pageTables.Builds SimplePte.rw GuestEntry pdptLevel h root h' root'

/-- A slot page table has what it had, and everything that has been allocated. -/
abbrev SlotClaims (h : PhysMem A) (root : Option Pfn) (h' : PhysMem A) (root' : Option Pfn) :
    Prop :=
  ClaimsOf SimplePte.rw h root h' root'

/-- The frames of a slot page table: its pages, and the frames it has write access to. -/
abbrev slotFrames (h : PhysMem A) (root : Option Pfn) : Set Pfn :=
  pageTables.held SimplePte.rw pdptLevel h root

/-- The pages of a slot page table. -/
abbrev slotPages (h : PhysMem A) (root : Option Pfn) : Set Pfn :=
  pageTables.held (fun _ => false) pdptLevel h root

/-- The frame a leaf maps. -/
def SimplePte.frame (e : SimplePte) : Pfn :=
  e.pageTabEntToPfn tblLevel

/-- The leaf at the end of a path. -/
def slotLeaf (h : PhysMem A) (root : Option Pfn) (v : ℕ → Key) : Option SimplePte :=
  root.bind fun t => (pageTables.leaf h.mem pdptLevel t v).map Prod.snd

/-- Two paths lead to the same page of the slot. -/
abbrev SamePage (v w : ℕ → Key) : Prop :=
  Agree pdptLevel v w

@[simp] theorem SimplePte.frame_setPte (tab : Pfn) (d acc w us xd : Bool) :
    (setPte tab d acc w us xd).frame = tab :=
  pageTabEntToPfn_setPte tab d acc w us xd (by decide) (by decide)

@[simp] theorem slotLeaf_none (h : PhysMem A) (v : ℕ → Key) : slotLeaf h none v = none := rfl

theorem slotEntry_link (l : ℕ) (c : Pfn) (hl : 2 ≤ l) : SlotEntry l (pageTables.link c) := by
  refine ⟨SimplePte.a_setPte .., fun hleaf => ?_⟩
  simp [pageTables, SimplePte.isLeaf, show l ≠ 1 by omega] at hleaf

theorem leafAtTable_link (l : ℕ) (c : Pfn) (_ : 2 ≤ l) : LeafAtTable l (pageTables.link c) := by
  intro hleaf
  simpa [pageTables, SimplePte.isLeaf] using hleaf

theorem Marks.isLeaf {f : SimplePte → SimplePte} (hf : Marks f) (l : ℕ) (e : SimplePte) :
    (f e).isLeaf l = e.isLeaf l :=
  hf.keepsNext.isLeaf l e

instance : EntryKind LeafAtTable where
  link := leafAtTable_link
  leaf := fun _ _ _ => rfl
  level := fun _ _ he => he
  mark := fun _ l e hf he hleaf => he ((hf.isLeaf l e).symm.trans hleaf)

instance : EntryKind SlotEntry where
  link := slotEntry_link
  leaf := fun _ ha => ⟨ha, fun _ => rfl⟩
  level := fun _ _ he => he.2
  mark := fun _ l e hf he => ⟨hf.a e he.1, fun hleaf => he.2 ((hf.isLeaf l e).symm.trans hleaf)⟩

instance : EntryKind GuestEntry where
  link := fun l c hl => ⟨slotEntry_link l c hl, fun _ =>
    ⟨SimplePte.rw_setPte .., SimplePte.us_setPte .., SimplePte.xd_setPte ..⟩⟩
  leaf := fun e ha => ⟨EntryKind.leaf e ha, fun hleaf => by
    rw [show e.isLeaf tblLevel = true from pageTables.isLeaf_one e] at hleaf
    cases hleaf⟩
  level := fun _ _ he => he.1.2
  mark := fun f l e hf he => ⟨EntryKind.mark f l e hf he.1, fun hleaf => by
    obtain ⟨hrw, hus, hxd⟩ := hf.permissions e
    rw [hrw, hus, hxd]
    exact he.2 ((hf.isLeaf l e).symm.trans hleaf)⟩

section Leaf

variable {P : ℕ → SimplePte → Prop} [EntryKind P] {own : SimplePte → Bool} {h h' : PhysMem A}
  {root : Option Pfn} {t : Pfn} {v w : ℕ → Key} {e : SimplePte}

/-- The leaves of a slot page table are at level 1. -/
theorem slotLeaf_eq_some (hroot : ∀ r, root = some r → pageTables.Mappable own P pdptLevel h r) :
    slotLeaf h root v = some e ↔
      ∃ t, root = some t ∧ pageTables.leaf h.mem pdptLevel t v = some (1, e) := by
  rw [slotLeaf, Option.bind_eq_some_iff]
  refine exists_congr fun t => and_congr_right fun ht => ?_
  rw [Option.map_eq_some_iff]
  refine ⟨?_, fun hleaf => ⟨_, hleaf, rfl⟩⟩
  rintro ⟨⟨l, e'⟩, hleaf, rfl⟩
  obtain ⟨-, -, -, hisLeaf⟩ := leaf_spec hleaf
  have hl : l = 1 := EntryKind.level l e' (Entries.leaf (hroot t ht).entries hleaf) hisLeaf
  exact hl ▸ hleaf

theorem slotLeaf_of_samePage (hvw : SamePage v w) : slotLeaf h root v = slotLeaf h root w := by
  unfold slotLeaf
  simp only [leaf_of_agree hvw]

/-- A table translates as before while its pages are not written. -/
theorem slotLeaf_congr (hmem : ∀ f ∈ slotPages h root, h'.mem f = h.mem f) (v : ℕ → Key) :
    slotLeaf h' root v = slotLeaf h root v := by
  cases root with
  | none => rfl
  | some t =>
    simp only [slotLeaf, Option.bind_some]
    rw [leaf_congr fun f hf => hmem f ⟨t, rfl, hf⟩]

/-- A table has the frames it has write access to. -/
theorem frame_mem_slotFrames (hroot : ∀ r, root = some r → SlotTable h r)
    (hleaf : slotLeaf h root v = some e) (hrw : e.rw = true) : e.frame ∈ slotFrames h root := by
  obtain ⟨t, ht, hleaf⟩ := (slotLeaf_eq_some hroot).mp hleaf
  exact ⟨t, ht, mem_frames_of_owned hleaf hrw⟩

/-- A frame with write access is no page of the table. -/
theorem frame_not_mem_slotPages (hroot : ∀ r, root = some r → SlotTable h r)
    (hleaf : slotLeaf h root v = some e) (hrw : e.rw = true) : e.frame ∉ slotPages h root := by
  obtain ⟨t, ht, hleaf⟩ := (slotLeaf_eq_some hroot).mp hleaf
  rintro ⟨t', ht', hf⟩
  obtain rfl := Option.some.inj (ht.symm.trans ht')
  exact Separate.not_mem_nodes (hroot t ht).separate hleaf hrw hf

/-- No two pages of the slot have write access to the same frame. -/
theorem samePage_of_frame_eq {e' : SimplePte} (hroot : ∀ r, root = some r → SlotTable h r)
    (hv : slotLeaf h root v = some e) (hw : slotLeaf h root w = some e') (hrw : e.rw = true)
    (hrw' : e'.rw = true) (hframe : e.frame = e'.frame) : SamePage v w := by
  obtain ⟨t, ht, hv⟩ := (slotLeaf_eq_some hroot).mp hv
  obtain ⟨t', ht', hw⟩ := (slotLeaf_eq_some hroot).mp hw
  obtain rfl := Option.some.inj (ht.symm.trans ht')
  exact (Separate.eq_of_next_eq (hroot t ht).separate hv hw hrw hrw' hframe).2

end Leaf

/-! ## Mapping a page -/

section Map

variable {P : ℕ → SimplePte → Prop} [EntryKind P] {own : SimplePte → Bool} {h h₁ : PhysMem A}
  {root : Option Pfn} {v : ℕ → Key} {e : SimplePte}

/-- What mapping a page at the path `v` with the leaf `e` does: `h₁` is the memory after the page has
been allocated, if it has been. -/
structure PageMapped (P : ℕ → SimplePte → Prop) (own : SimplePte → Bool) (h h₁ : PhysMem A)
    (root : Option Pfn) (v : ℕ → Key) (e : SimplePte) (t : Pfn) (h₂ : PhysMem A) : Prop where
  /-- The table has been built, or more of it. -/
  builds : pageTables.Builds own P pdptLevel h root h₂ (some t)
  /-- The page has the leaf. -/
  entered : ∀ w, SamePage w v → slotLeaf h₂ (some t) w = some e
  /-- The other pages keep their leaves. -/
  kept : ∀ w, ¬ SamePage w v → slotLeaf h₂ (some t) w = slotLeaf h root w
  /-- What was in use stays in use. -/
  isFree : ∀ f, h₂.IsFree f → h₁.IsFree f
  /-- The frame of the leaf keeps its content and becomes no page of the table. -/
  content : ¬ h₁.IsFree e.frame → e.frame ∉ slotPages h root →
    h₂.mem e.frame = h₁.mem e.frame ∧ e.frame ∉ slotPages h₂ (some t)
  /-- The table has everything, if it did not have the frame that the page led to before. -/
  claims : (∀ e₀, slotLeaf h root v = some e₀ → own e₀ = false) →
    (∀ f, h.IsFree f → ¬ h₁.IsFree f → own e = true ∧ f = e.frame) → ClaimsOf own h root h₂ (some t)

/-- What mapping a page of a slot page table does. -/
abbrev SlotMapped (own : SimplePte → Bool) (h h₁ : PhysMem A) (root : Option Pfn) (v : ℕ → Key)
    (e : SimplePte) (t : Pfn) (h₂ : PhysMem A) : Prop :=
  PageMapped SlotEntry own h h₁ root v e t h₂

/-- The rule of `mapIntoPgTbl` and `findAndSetPTECOW` at level 1. -/
theorem mapAt_slot (hroot : ∀ r, root = some r → pageTables.Mappable own P pdptLevel h r)
    (hfree : ∀ f, h₁.IsFree f → h.IsFree f) (hmem : ∀ f, ¬ h.IsFree f → h₁.mem f = h.mem f)
    (hcalls : h₁.freeCalls = h.freeCalls) (hsel : e.sel = true) (ha : e.a = true)
    (hnew : own e = true → h.IsFree e.frame ∧ ¬ h₁.IsFree e.frame) :
    Outcome (pageTables.mapAt Stop.kbugon e v tblLevel pdptLevel root h₁)
      (fun p => PageMapped P own h h₁ root v e p.1 p.2) (· = .kbugon) := by
  have hpages : ∀ r, root = some r → ∀ f ∈ pageTables.nodes h.mem pdptLevel r,
      h₁.mem f = h.mem f :=
    fun r hr f hf => hmem f ((hroot r hr).used f (nodes_subset_frames _ _ hf))
  have hroot₁ : ∀ r, root = some r → pageTables.Mappable own P pdptLevel h₁ r :=
    fun r hr => (hroot r hr).congr (hpages r hr) hfree
  have hnew₁ : own e = true → ¬ h₁.IsFree (pageTables.next 1 e) ∧ ∀ r, root = some r →
      pageTables.next 1 e ∉ pageTables.frames own h₁.mem pdptLevel r := by
    refine fun hown => ⟨(hnew hown).2, fun r hr hf => ?_⟩
    rw [frames_congr (hpages r hr)] at hf
    exact (hroot r hr).used _ hf (hnew hown).1
  refine (mapAt_outcome (EntryKind.leaf e ha) EntryKind.link EntryKind.level hsel (by decide)
    (by decide) hroot₁ hnew₁).mono ?_
    fun _ h => h
  rintro ⟨t, h₂⟩ hmapped
  refine { builds := hmapped.builds hroot hfree hmem hcalls hnew, entered := fun w hw => ?_,
           kept := fun w hw => ?_, isFree := fun f hf => ((hmapped.isFree f).mp hf).1,
           content := fun hused hpage => ?_, claims := fun hover htaken => ?_ }
  · rcases hmapped.leaf w with ⟨-, hleaf⟩ | ⟨hnot, -⟩
    · rw [slotLeaf, Option.bind_some, hleaf]
      rfl
    · exact absurd hw hnot
  · rcases hmapped.leaf w with ⟨hw', -⟩ | ⟨-, hleaf⟩
    · exact absurd hw' hw
    · cases root with
      | none =>
        rw [slotLeaf, Option.bind_some, hleaf]
        rfl
      | some r =>
        rw [slotLeaf, slotLeaf, Option.bind_some, Option.bind_some, hleaf, Option.bind_some,
          leaf_congr (hpages r rfl)]
  · have hnode : e.frame ∉ pageTables.nodes h₂.mem pdptLevel t := by
      intro hnode
      rcases hmapped.nodes_subset _ hnode with ⟨r, hr, hf⟩ | hf
      · exact hpage ⟨r, hr, (frames_congr (hpages r hr)).subset hf⟩
      · exact hused hf
    exact ⟨hmapped.mem_eq _ hnode, fun hf => hnode (mem_held.mp hf)⟩
  · refine hmapped.claims hroot hmem htaken fun r hr l e₀ hleaf => hover e₀ ?_
    rw [slotLeaf, hr, Option.bind_some, hleaf]
    rfl

end Map

/-! ## Marking a leaf -/

section Mark

variable {P : ℕ → SimplePte → Prop} [EntryKind P] {own : SimplePte → Bool} {h : PhysMem A} {t : Pfn}
  {v : ℕ → Key} {e : SimplePte} {f : SimplePte → SimplePte}

/-- The processor sets bits of the leaf at the end of a path. -/
def markLeaf (f : SimplePte → SimplePte) (h : PhysMem A) (t : Pfn) (v : ℕ → Key) : PhysMem A :=
  { h with mem := pageTables.updateLeaf f h.mem pdptLevel t v }

/-- There is nothing to mark where the walk ends at no leaf. -/
theorem markLeaf_of_none (hleaf : slotLeaf h (some t) v = none) : markLeaf f h t v = h := by
  rw [slotLeaf, Option.bind_some, Option.map_eq_none_iff, leaf, Option.map_eq_none_iff] at hleaf
  rw [markLeaf, updateLeaf, hleaf]

/-- A leaf that has the bits is not changed. -/
theorem markLeaf_of_fixed (hleaf : slotLeaf h (some t) v = some e) (hf : f e = e) :
    markLeaf f h t v = h := by
  rw [slotLeaf, Option.bind_some, Option.map_eq_some_iff] at hleaf
  obtain ⟨⟨l, e'⟩, hpath, rfl⟩ := hleaf
  rw [markLeaf, updateLeaf_of_fixed hpath hf]

/-- What marking the leaf `e` of a slot page table does. -/
structure Marked (P : ℕ → SimplePte → Prop) (own : SimplePte → Bool) (f : SimplePte → SimplePte)
    (h : PhysMem A) (t : Pfn) (v : ℕ → Key) (e : SimplePte) (h' : PhysMem A) : Prop where
  /-- It is the same table, with the same frames. -/
  builds : pageTables.Builds own P pdptLevel h (some t) h' (some t)
  /-- Nothing is allocated or freed. -/
  isFree : ∀ g, h'.IsFree g ↔ h.IsFree g
  /-- It has the frames it had. -/
  frames_eq : pageTables.held own pdptLevel h' (some t) = pageTables.held own pdptLevel h (some t)
  /-- It has the pages it had. -/
  pages_eq : slotPages h' (some t) = slotPages h (some t)
  /-- Only pages of the table are written. -/
  mem_eq : ∀ g ∉ slotPages h (some t), h'.mem g = h.mem g
  /-- The page has the marked leaf. -/
  marked : ∀ w, SamePage w v → slotLeaf h' (some t) w = some (f e)
  /-- The other pages keep their leaves. -/
  kept : ∀ w, ¬ SamePage w v → slotLeaf h' (some t) w = slotLeaf h (some t) w

theorem marked_markLeaf (hf : Marks f) (hown : ∀ e, own (f e) = own e)
    (htable : pageTables.Mappable own P pdptLevel h t) (hleaf : slotLeaf h (some t) v = some e) :
    Marked P own f h t v e (markLeaf f h t v) := by
  obtain ⟨t', ht', hpath⟩ := (slotLeaf_eq_some fun r hr => Option.some.inj hr ▸ htable).mp hleaf
  obtain rfl := Option.some.inj ht'
  have hupdated := leafUpdated hf.keepsNext hown (fun l e he => EntryKind.mark f l e hf he)
    htable.separate htable.entries hpath
  unfold markLeaf
  generalize pageTables.updateLeaf f h.mem pdptLevel t v = m at *
  have hheld : ∀ own : SimplePte → Bool, (∀ e, own (f e) = own e) →
      pageTables.held own pdptLevel ({ h with mem := m } : PhysMem A) (some t) =
        pageTables.held own pdptLevel h (some t) := by
    intro own hown
    ext g
    rw [mem_held, mem_held, hupdated.frames_eq own hown]
  have hpages := hheld (fun _ => false) fun _ => rfl
  have hpage : ∀ g ∉ slotPages h (some t), m g = h.mem g :=
    fun g hg => hupdated.mem_eq g fun hmem => hg (mem_held.mpr hmem)
  have hbuilds : pageTables.Builds own P pdptLevel h (some t) ({ h with mem := m } : PhysMem A)
      (some t) :=
    { mappable := fun r hr => by
        obtain rfl := Option.some.inj hr
        refine ⟨hupdated.separate, hupdated.entries, fun g hg => htable.used g ?_⟩
        rwa [hupdated.frames_eq _ hown] at hg
      held_subset := fun g hg => Or.inl (hheld _ hown ▸ hg)
      isFree := fun g hg => hg
      mem_eq := fun g _ hg => hpage g fun hg' => hg (nodes_subset_held hg')
      freeCalls := rfl
      root_eq := fun r hr => hr
      nodes_subset := fun g hg => Or.inl (hpages ▸ hg)
      page_eq := fun g _ => hpage g }
  refine ⟨hbuilds, fun _ => Iff.rfl, hheld _ hown, hpages, hpage, fun w hw => ?_, fun w hw => ?_⟩
  · rcases hupdated.leaf w with ⟨-, hnew⟩ | ⟨hnot, -⟩
    · rw [slotLeaf, Option.bind_some, hnew]
      rfl
    · exact absurd hw hnot
  · rcases hupdated.leaf w with ⟨hsame, -⟩ | ⟨-, hold⟩
    · exact absurd hsame hw
    · rw [slotLeaf, Option.bind_some, hold]
      rfl

end Mark

/-! ## Freeing a table -/

namespace UmPgTblMgmt

@[simp] theorem freePages_zero (h : PhysMem A) (f : Pfn) : freePages h f 0 = h.free f := by
  simp [freePages]

/-- The visitor of `freePageTableLamb` frees the tables and the frames of the writable leaves. -/
theorem frees_accessedPages : Visitor.Frees pageTables (accessedPages
    (fun e lvl (h : PhysMem A) => if e.rw then freePages h (e.pageTabEntToPfn lvl) (orders lvl) else h)
    (fun t _ h => freePages h t 0)) SimplePte.rw SlotEntry where
  follow := by
    intro l e h hsel hP
    have hexists : e.exists = true := hsel
    simp [accessedPages, hexists, hP.1]
  not_follow := by
    intro l e h hsel
    have habsent : e.exists = false := hsel
    simp [accessedPages, habsent]
  beforeRec := fun _ _ _ => rfl
  afterRec := fun _ _ _ _ => rfl
  leaf := by
    intro l e h hP hleaf
    obtain rfl := hP.2 hleaf
    simp [accessedPages, orders, pageTables]
  beforeRet := fun _ t h => freePages_zero h t

/-- `freePageTableLamb` frees exactly the frames of the table. -/
theorem freePageTableLamb_freed {h : PhysMem A} {t : Pfn} (ht : SlotTable h t) :
    Heap.Freed (slotFrames h (some t)) h (freePageTableLamb t pdptLevel h) := by
  have hheld : slotFrames h (some t) = pageTables.frames SimplePte.rw h.mem pdptLevel t :=
    Set.ext fun f => mem_held
  rw [hheld]
  have hentries := ht.entries.mono fun l e he => he.1
  exact traverse_freed frees_accessedPages ht.separate hentries ht.used fun _ _ => rfl

end UmPgTblMgmt

end Umm
