import Umm.Foundations.RadixPath
import Umm.PageTable.SlotTable
import Umm.PageTable.Translate

/-!
# Mapping a page

`mapIntoPgTbl` maps a 4K page in a table of the level of a slot or of the top level.  It is an exact
point update: the walk of the mapped address ends at the new leaf, below entries that allow the
access if they are new, and every address of another page translates as before or fails to.
-/

namespace Umm

open Foundations Foundations.Layout

variable {A : Allocator Pfn}

namespace UmPgTblMgmt

/-- A tree of tables in use, with leaves only at `TBL_LEVEL`. -/
abbrev WellFormed (lvl : ℕ) (h : PhysMem A) (t : Pfn) : Prop :=
  pageTables.Mappable (fun _ => false) LeafAtTable lvl h t

/-- What an address translates with: the leaf that `addrToPTELamb` finds, if it is in use. -/
def translation (m : Pfn → Key → SimplePte) (root : Option Pfn) (lvl : ℕ) (la : LinAddr) :
    Option SimplePte :=
  root.bind fun r =>
    match addrToPTELamb m la r lvl with
    | .ok (t, k) => if (m t k).exists then some (m t k) else none
    | .error _ => none

/-- The entry of a level that the walk of an address meets, present or not. -/
def entryAt (m : Pfn → Key → SimplePte) (root : Option Pfn) (lvl : ℕ) (la : LinAddr) (l : ℕ) :
    Option SimplePte :=
  root.bind fun r => pageTables.entryOn m lvl r la.path l

/-- Two addresses are on one page of a table of the level: their indices agree from there down. -/
abbrev SameVirtPage (lvl : ℕ) (la lb : LinAddr) : Prop :=
  Agree lvl la.path lb.path

/-- The table `t` is the one at `root`, or a new one, with the page of `virt` mapped to `phys`. -/
structure PointUpdate (lvl : ℕ) (h : PhysMem A) (root : Option Pfn) (phys : Pfn) (virt : LinAddr)
    (dirty rw xd : Bool) (t : Pfn) (h' : PhysMem A) : Prop where
  /-- A table that was there is returned. -/
  root_eq : ∀ r, root = some r → t = r
  /-- The table is well formed. -/
  wellFormed : WellFormed lvl h' t
  /-- The walk of the address ends at the requested leaf. -/
  mapped : ∃ tab k, ∃ e : SimplePte, addrToPTELamb h'.mem virt t lvl = .ok (tab, k) ∧
    h'.mem tab k = e ∧ pageTables.leaf h'.mem lvl t virt.path = some (tblLevel, e) ∧
    e.exists = true ∧ toAddr (e.pageTabEntToPfn tblLevel) = toAddr phys ∧ e.dirty = dirty ∧
    e.rw = rw ∧ e.xd = xd ∧ e.us = true ∧ e.a = true
  /-- The entries above it lead there.  Those that were in use are kept, and the new ones allow all
  accesses. -/
  above : ∀ l, dirLevel ≤ l → l ≤ lvl → ∃ e, entryAt h'.mem (some t) lvl virt l = some e ∧
    e.exists = true ∧ e.isLeaf l = false ∧
    (entryAt h.mem root lvl virt l = some e ∨
      (∀ e₀, entryAt h.mem root lvl virt l = some e₀ → e₀.exists = false) ∧
        e.rw = true ∧ e.us = true ∧ e.xd = false)
  /-- Every address of another page translates, or fails to translate, as before. -/
  others : ∀ la, ¬ SameVirtPage lvl la virt →
    translation h'.mem (some t) lvl la = translation h.mem root lvl la

section Translation

variable {m : Pfn → Key → SimplePte} {la : LinAddr} {lvl : ℕ}

/-- The walk of an address without a leaf fails, or ends at an entry that is not in use. -/
theorem exists_of_leaf_none {t tab : Pfn} {k : Key}
    (hleaf : pageTables.leaf m lvl t la.path = none)
    (hwalk : addrToPTELamb m la t lvl = .ok (tab, k)) :
    SimplePte.exists (m tab k) = false := by
  unfold addrToPTELamb at hwalk
  induction lvl generalizing t with
  | zero => cases hwalk
  | succ lvl ih =>
    unfold walkPageTable at hwalk
    rcases pageTables.entry_cases (lvl + 1) (m t (la.path (lvl + 1))) with
      habsent | ⟨hpresent, hisLeaf⟩ | ⟨c, hc⟩
    · have hexists : SimplePte.exists (m t (la.index (lvl + 1))) = false := habsent
      split_ifs at hwalk
      · obtain ⟨rfl, rfl⟩ := Prod.mk.inj (Except.ok.inj hwalk)
        exact hexists
      · rw [nextTableOrFrame, hexists] at hwalk
        cases hwalk
    · rw [leaf_of_leaf hpresent hisLeaf] at hleaf
      cases hleaf
    · rw [leaf_of_child hc] at hleaf
      obtain ⟨hpresent, hisLeaf, rfl⟩ := child_eq_some.mp hc
      have hexists : SimplePte.exists (m t (la.index (lvl + 1))) = true := hpresent
      have hstep : SimplePte.isLeaf (m t (la.index (lvl + 1))) (lvl + 1) = false := hisLeaf
      rw [hstep, if_neg Bool.false_ne_true, nextTableOrFrame_of_exists hexists] at hwalk
      exact ih hleaf hwalk

/-- What an address translates with is the leaf of its path. -/
theorem translation_some (t : Pfn) : translation m (some t) lvl la =
    (pageTables.leaf m lvl t la.path).map Prod.snd := by
  rw [translation, Option.bind_some]
  cases hleaf : pageTables.leaf m lvl t la.path with
  | none =>
    cases hwalk : addrToPTELamb m la t lvl with
    | error err => rfl
    | ok p =>
      have habsent := exists_of_leaf_none hleaf hwalk
      exact if_neg (Bool.eq_false_iff.mp habsent)
  | some p =>
    obtain ⟨tab, hlocate, hentry, hexists⟩ := locate_of_leaf hleaf
    rw [addrToPTELamb, walkPageTable_of_locate hlocate]
    have hpresent : SimplePte.exists (m tab (la.index p.1)) = true := hentry ▸ hexists
    exact (if_pos hpresent).trans (congrArg some hentry)

end Translation

section Map

variable {h : PhysMem A} {root : Option Pfn} {phys : Pfn} {virt : LinAddr} {lvl : ℕ}
  {writeFault rdPerm execDisable : Bool}

/-- Mapping a page is a point update. -/
theorem mapIntoPgTbl_pointUpdate (hlvl : lvl = pdptLevel ∨ lvl = pml4Level)
    (hroot : ∀ r, root = some r → WellFormed lvl h r) :
    Outcome (mapIntoPgTbl root phys virt tblLevel lvl writeFault rdPerm execDisable h)
      (fun p => PointUpdate lvl h root phys virt writeFault rdPerm execDisable p.1 p.2)
      (· = .kbugon) := by
  have hle : 1 ≤ lvl ∧ lvl ≤ 4 := by
    rcases hlvl with rfl | rfl
    · exact ⟨by decide, by decide⟩
    · exact ⟨by decide, by decide⟩
  have hsel : pageTables.present (SimplePte.setPte phys writeFault true rdPerm true execDisable) =
      true := SimplePte.sel_setPte ..
  have hmap : Outcome (mapIntoPgTbl root phys virt tblLevel lvl writeFault rdPerm execDisable h)
      (fun p => pageTables.Mapped (fun _ => false) LeafAtTable lvl virt.path
        (SimplePte.setPte phys writeFault true rdPerm true execDisable) h root p.1 p.2)
      (· = .kbugon) :=
    mapAt_outcome (fun _ => rfl) leafAtTable_link (fun l e he => he) hsel hle.1 hle.2 hroot nofun
  have hpath : Outcome (mapIntoPgTbl root phys virt tblLevel lvl writeFault rdPerm execDisable h)
      (fun p => pageTables.Linked lvl (entryAt h.mem root lvl virt)
        (entryAt p.2.mem (some p.1) lvl virt)) (· = .kbugon) :=
    mapAt_linked (fun _ => rfl) leafAtTable_link (fun l e he => he) hsel hle.1 hle.2 hroot nofun
  refine (hmap.and hpath).mono ?_ fun _ h => h
  rintro ⟨t, h'⟩ ⟨hmapped, hlinked⟩
  refine { root_eq := hmapped.root_eq, wellFormed := ?_, mapped := ?_, above := ?_, others := ?_ }
  · refine ⟨hmapped.separate, hmapped.entries, fun f hf hfree => ?_⟩
    exact ((hmapped.isFree f).mp hfree).2 hf
  · rcases hmapped.leaf virt.path with ⟨-, hleaf⟩ | ⟨hnot, -⟩
    · obtain ⟨tab, k, hwalk, hentry⟩ := addrToPTELamb_of_leaf hleaf
      refine ⟨tab, k, _, hwalk, hentry, hleaf, hsel, ?_, by simp, by simp, by simp, by simp, by simp⟩
      rw [SimplePte.pageTabEntToPfn_setPte _ _ _ _ _ _ (by decide) (by decide)]
    · exact absurd (fun _ _ _ => rfl) hnot
  · intro l h2 hl
    obtain ⟨e, hnew, hpresent, hleaf, hold⟩ := hlinked l h2 hl
    refine ⟨e, hnew, hpresent, hleaf, hold.imp_right ?_⟩
    rintro ⟨habsent, c, rfl⟩
    exact ⟨habsent, SimplePte.rw_setPte .., SimplePte.us_setPte .., SimplePte.xd_setPte ..⟩
  · intro la hother
    rcases hmapped.leaf la.path with ⟨hsame, -⟩ | ⟨-, hleaf⟩
    · exact absurd hsame hother
    · rw [translation_some, hleaf]
      cases root with
      | none => rfl
      | some r => rw [translation_some, Option.bind_some]

end Map

/-- A memory with six free frames. -/
def sixPages : PhysMem (Allocator.freeList Pfn) where
  mem := fun _ _ => 0
  pal := [1, 2, 3, 4, 5, 6]
  freeCalls := []

/-- The first page is mapped into a new table, and the last page of the next table of level 1 into
the table that is there then. -/
theorem mapIntoPgTbl_pointUpdate_sixPages : ∃ t h₁ h₂,
    mapIntoPgTbl none 8 0x18 tblLevel pml4Level true true false sixPages = .ok (t, h₁) ∧
    mapIntoPgTbl (some t) 9 0x3ff000 tblLevel pml4Level false false true h₁ = .ok (t, h₂) ∧
    PointUpdate pml4Level h₁ (some t) 9 0x3ff000 false false true t h₂ := by
  obtain ⟨t, h₁, h₂, hmap₁, hmap₂⟩ : ∃ t h₁ h₂,
      mapIntoPgTbl none 8 0x18 tblLevel pml4Level true true false sixPages = .ok (t, h₁) ∧
      mapIntoPgTbl (some t) 9 0x3ff000 tblLevel pml4Level false false true h₁ = .ok (1, h₂) :=
    ⟨_, _, _, rfl, rfl⟩
  have hfirst := (mapIntoPgTbl_pointUpdate (Or.inr rfl) fun r hr => by cases hr).of_eq_ok hmap₁
  have hsecond := (mapIntoPgTbl_pointUpdate (Or.inr rfl)
    fun r hr => Option.some.inj hr ▸ hfirst.wellFormed).of_eq_ok hmap₂
  obtain rfl : (1 : Pfn) = t := hsecond.root_eq t rfl
  exact ⟨1, h₁, h₂, hmap₁, hmap₂, hsecond⟩

end UmPgTblMgmt

end Umm
