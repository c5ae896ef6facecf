import Umm.Foundations.RadixSteps
import Umm.PageTable.Translate

/-!
# Opening a walk to user mode

`setUserAllPTEsWalkLamb` sets the `US` bit of every entry that the walk of an address goes through.
It changes the entries that it uses to descend, and the interior ones are shared with other
addresses.

The walk sets no bit that says where an entry leads, so that all walks go where they went before.
`OpenedToUser` says what has changed.
-/

namespace Umm

open Foundations Foundations.Layout

namespace UmPgTblMgmt

/-! ## The walk -/

/-- `walkPageTable`, with a function that is called for the entries on the way and may write to the
table.  A pointer to an entry is its table and its index. -/
def walkPageTableRec {α : Type} (virt : LinAddr)
    (recFn : Pfn × Key → LinAddr → ℕ → (Pfn → Key → SimplePte) → Pfn → Key → SimplePte)
    (leafFn : Pfn × Key → LinAddr → ℕ → α) :
    ℕ → Pfn → (Pfn → Key → SimplePte) → Except Stop (α × (Pfn → Key → SimplePte))
  -- `pageTabEntToAddr` asserts the level
  | 0, _, _ => .error .kassert
  | lvl + 1, root, m =>
    let curPTE := (root, virt.index (lvl + 1))
    let m := recFn curPTE virt (lvl + 1) m
    if (m root (virt.index (lvl + 1))).isLeaf (lvl + 1) then .ok (leafFn curPTE virt (lvl + 1), m)
    else do
      let next ← nextTableOrFrame m root (virt.index (lvl + 1)) (lvl + 1)
      walkPageTableRec virt recFn leafFn lvl next m

/-- `curPte->raw = curPte->raw | 1 << 2`. -/
def setUserPte (curPte : Pfn × Key) (m : Pfn → Key → SimplePte) : Pfn → Key → SimplePte :=
  Function.update m curPte.1 (Function.update (m curPte.1) curPte.2 (m curPte.1 curPte.2).setUser)

/-- `setUserAllPTEsWalkLamb`: the table afterwards. -/
def setUserAllPTEsWalkLamb (la : LinAddr) (root : Pfn) (lvl : ℕ) (m : Pfn → Key → SimplePte) :
    Except Stop (Pfn → Key → SimplePte) := do
  let (_, m) ← walkPageTableRec la (fun curPte _ _ m => setUserPte curPte m) (fun _ _ _ => 0) lvl
    root m
  .ok m

/-! ## What the walk is compared by -/

/-- Pointers to the entries that the walk of an address goes through. -/
def walkPtes (m : Pfn → Key → SimplePte) (lvl : ℕ) (root : Pfn) (la : LinAddr) : List (Pfn × Key) :=
  (pageTables.stepsOn m lvl root la.path).map fun p => (p.2, la.index p.1)

/-- A pointer to the leaf of an address. -/
def leafPte (m : Pfn → Key → SimplePte) (lvl : ℕ) (root : Pfn) (la : LinAddr) :
    Option (Pfn × Key) :=
  (pageTables.locate m lvl root la.path).map fun p => (p.2, la.index p.1)

/-- What an address is translated to. -/
structure Translation where
  /-- The level of the leaf, which gives the size of the page. -/
  lvl : ℕ
  /-- The first frame of the page. -/
  frame : Pfn
  /-- `RW` of the leaf. -/
  rw : Bool
  /-- `XD` of the leaf. -/
  xd : Bool
  /-- `A` of the leaf. -/
  a : Bool
  /-- `DIRTY` of the leaf. -/
  dirty : Bool
deriving DecidableEq

/-- The translation of an address. -/
def translate (m : Pfn → Key → SimplePte) (lvl : ℕ) (root : Pfn) (la : LinAddr) :
    Option Translation :=
  (pageTables.leaf m lvl root la.path).map fun p =>
    ⟨p.1, p.2.pageTabEntToPfn p.1, p.2.rw, p.2.xd, p.2.a, p.2.dirty⟩

/-- User-mode accesses to an address are allowed: all entries on its walk are in use with `US`. -/
def userAccessible (m : Pfn → Key → SimplePte) (lvl : ℕ) (root : Pfn) (la : LinAddr) : Bool :=
  pageTables.allOn (fun e => e.exists && e.us) m lvl root la.path

/-- The table `m'` is `m` with the walk of the address opened to user mode. -/
structure OpenedToUser (m m' : Pfn → Key → SimplePte) (lvl : ℕ) (root : Pfn) (la : LinAddr) :
    Prop where
  /-- The walk has a leaf. -/
  leaf_mem : ∃ p ∈ walkPtes m lvl root la, leafPte m lvl root la = some p
  /-- Every entry on the walk has `US`. -/
  us : ∀ p ∈ walkPtes m lvl root la, (m' p.1 p.2).us = true
  /-- No other entry has changed. -/
  others : ∀ t k, (t, k) ∉ walkPtes m lvl root la → m' t k = m t k
  /-- No other bit of any entry has changed. -/
  bits : ∀ t k i, i ≠ 2 → (m' t k).getLsbD i = (m t k).getLsbD i
  /-- Every address is walked through the same entries. -/
  walkPtes_eq : ∀ w, walkPtes m' lvl root w = walkPtes m lvl root w
  /-- It translates to the same frame, with the same bits. -/
  translate_eq : ∀ w, translate m' lvl root w = translate m lvl root w
  /-- An address with another leaf is accessible only if its own leaf had `US` before. -/
  isolated : ∀ w, leafPte m lvl root w ≠ leafPte m lvl root la →
    userAccessible m' lvl root w = true →
      ∃ p, leafPte m lvl root w = some p ∧ (m p.1 p.2).us = true

/-! ## What the walk does -/

section Walk

variable {m : Pfn → Key → SimplePte} {la w : LinAddr} {lvl : ℕ} {root t : Pfn} {k : Key}
  {q : ℕ × SimplePte}

theorem keepsNext_setUser : pageTables.KeepsNext SimplePte.setUser where
  present := SimplePte.sel_setUser
  isLeaf l e := by simp [pageTables, SimplePte.isLeaf]
  next l e := SimplePte.pageTabEntToPfn_setUser e l

/-- For an address that is mapped, the entries on its path are rewritten. -/
theorem setUserAllPTEsWalkLamb_of_leaf (h : pageTables.leaf m lvl root la.path = some q) :
    setUserAllPTEsWalkLamb la root lvl m =
      .ok (pageTables.updatePath SimplePte.setUser m lvl root la.path) := by
  suffices hwalk : walkPageTableRec la (fun curPte _ _ m => setUserPte curPte m) (fun _ _ _ => 0)
      lvl root m = .ok (0, pageTables.updatePath SimplePte.setUser m lvl root la.path) by
    rw [setUserAllPTEsWalkLamb, hwalk]
    rfl
  induction lvl generalizing root m q with
  | zero => cases h
  | succ lvl ih =>
    let e := m root (la.index (lvl + 1))
    have hentry : setUserPte (root, la.index (lvl + 1)) m root (la.index (lvl + 1)) = e.setUser := by
      simp [setUserPte, e]
    have hshape : pageTables.SameShape m (setUserPte (root, la.index (lvl + 1)) m) :=
      keepsNext_setUser.sameShape_update root (la.index (lvl + 1))
    unfold walkPageTableRec updatePath
    simp only [hentry]
    rcases pageTables.entry_cases (lvl + 1) (m root (la.path (lvl + 1))) with
      habsent | ⟨hpresent, hleaf⟩ | ⟨c, hc⟩
    · rw [leaf_of_absent habsent] at h
      cases h
    · have hstop : e.setUser.isLeaf (lvl + 1) = true :=
        (keepsNext_setUser.isLeaf (lvl + 1) e).trans hleaf
      rw [if_pos hstop, if_pos hpresent, if_pos hleaf]
      rfl
    · obtain ⟨hpresent, hlink, hnext⟩ := child_eq_some.mp hc
      have hgo : ¬ e.setUser.isLeaf (lvl + 1) = true := by
        have hkept := keepsNext_setUser.isLeaf (lvl + 1) e
        exact Bool.eq_false_iff.mp (hkept.trans hlink)
      have hexists : (setUserPte (root, la.index (lvl + 1)) m root (la.index (lvl + 1))).exists =
          true := (hshape.present root _).trans hpresent
      rw [if_neg hgo, if_pos hpresent, if_neg (Bool.eq_false_iff.mp hlink),
        nextTableOrFrame_of_exists hexists, hentry, SimplePte.pageTabEntToPfn_setUser, hnext]
      rw [leaf_of_child hc] at h
      obtain ⟨q', hq'⟩ := hshape.exists_leaf h
      have hrest := ih hq'
      have hsame : e.pageTabEntToPfn (lvl + 1) = c := hnext
      rw [hsame]
      exact hrest

theorem mem_walkPtes : (t, k) ∈ walkPtes m lvl root la ↔
    ∃ l, (l, t) ∈ pageTables.stepsOn m lvl root la.path ∧ k = la.path l := by
  rw [walkPtes, List.mem_map]
  refine ⟨?_, ?_⟩
  · rintro ⟨⟨l, t'⟩, hmem, heq⟩
    obtain ⟨rfl, rfl⟩ := Prod.mk.inj heq
    exact ⟨l, hmem, rfl⟩
  · rintro ⟨l, hmem, rfl⟩
    exact ⟨(l, t), hmem, rfl⟩

/-- An entry is opened or as before. -/
theorem updatePath_setUser_apply (h : pageTables.leaf m lvl root la.path = some q) (t : Pfn)
    (k : Key) :
    ((t, k) ∈ walkPtes m lvl root la ∧
        pageTables.updatePath SimplePte.setUser m lvl root la.path t k = (m t k).setUser) ∨
      ((t, k) ∉ walkPtes m lvl root la ∧
        pageTables.updatePath SimplePte.setUser m lvl root la.path t k = m t k) := by
  rw [mem_walkPtes]
  exact keepsNext_setUser.updatePath_apply SimplePte.setUser_setUser h t k

/-- In a tree, the entries on a walk are opened, and only the addresses with the same leaf or with a
leaf that was open can have become accessible. -/
theorem openedToUser_updatePath (hsep : pageTables.Separate (fun _ => false) m lvl root)
    (h : pageTables.leaf m lvl root la.path = some q) :
    OpenedToUser m (pageTables.updatePath SimplePte.setUser m lvl root la.path) lvl root la := by
  have hshape : pageTables.SameShape m
      (pageTables.updatePath SimplePte.setUser m lvl root la.path) :=
    keepsNext_setUser.sameShape_updatePath
  have hentry := updatePath_setUser_apply h
  generalize pageTables.updatePath SimplePte.setUser m lvl root la.path = m' at hshape hentry
  -- every entry keeps the bits that a translation is made of
  have hkept : ∀ t k (g : SimplePte → Bool), (∀ e, g e.setUser = g e) → g (m' t k) = g (m t k) := by
    intro t k g hg
    rcases hentry t k with ⟨-, hsame⟩ | ⟨-, hsame⟩
    · rw [hsame, hg]
    · rw [hsame]
  obtain ⟨⟨l, t⟩, hlocate, -⟩ := Option.map_eq_some_iff.mp h
  refine { leaf_mem := ⟨(t, la.index l), ?_, ?_⟩, us := fun p hp => ?_,
           others := fun t k hnot => ?_, bits := fun t k i hi => ?_, walkPtes_eq := fun w => ?_,
           translate_eq := fun w => ?_, isolated := fun w hne haccess => ?_ }
  · exact mem_walkPtes.mpr ⟨l, locate_mem_stepsOn hlocate, rfl⟩
  · rw [leafPte, hlocate, Option.map_some]
  · rcases hentry p.1 p.2 with ⟨-, hsame⟩ | ⟨hnot, -⟩
    · rw [hsame, SimplePte.us_setUser]
    · exact absurd hp hnot
  · rcases hentry t k with ⟨hmem, -⟩ | ⟨-, hsame⟩
    · exact absurd hmem hnot
    · exact hsame
  · refine hkept t k (fun e => e.getLsbD i) fun e => ?_
    rw [SimplePte.getLsbD_setUser, decide_eq_false hi, Bool.false_or]
  · rw [walkPtes, walkPtes, hshape.stepsOn_eq]
  · rw [translate, translate, leaf, leaf, hshape.locate_eq, Option.map_map, Option.map_map]
    refine congrArg (fun g => Option.map g _) (funext fun p => ?_)
    have hframe : (m' p.2 (w.path p.1)).pageTabEntToPfn p.1 =
        (m p.2 (w.path p.1)).pageTabEntToPfn p.1 := hshape.next p.1 p.2 (w.path p.1)
    simp only [Function.comp_apply, hframe, hkept _ _ _ SimplePte.rw_setUser,
      hkept _ _ _ SimplePte.xd_setUser, hkept _ _ _ SimplePte.a_setUser,
      hkept _ _ _ SimplePte.dirty_setUser]
  · obtain ⟨lw, tw, hw, hus⟩ := exists_locate_of_allOn
      (fun e he => (Bool.and_eq_true_iff.mp he).1) haccess
    rw [hshape.locate_eq] at hw
    refine ⟨(tw, w.index lw), by rw [leafPte, hw, Option.map_some], ?_⟩
    rcases hentry tw (w.index lw) with ⟨hmem, -⟩ | ⟨-, hsame⟩
    · -- the leaf is on the walk that has been opened: it is the leaf of both addresses
      obtain ⟨l', hl', hkey⟩ := mem_walkPtes.mp hmem
      have hsame := hsep.locate_eq hw hl' hkey.symm
      obtain rfl := (hsep.path_of_stepsOn hl' (locate_mem_stepsOn hw)).1
      refine absurd ?_ hne
      rw [leafPte, leafPte, hw, hsame, Option.map_some, Option.map_some, hkey]
      rfl
    · rw [← hsame]
      exact (Bool.and_eq_true_iff.mp hus).2

end Walk

/-- Opening the walk of a mapped address changes only `US` bits on this walk: every address
translates as before, no address with another leaf becomes accessible unless its leaf was open, and
doing it again changes nothing.  The leaves may be at any level. -/
theorem setUserAllPTEsWalkLamb_openedToUser {m : Pfn → Key → SimplePte} {lvl : ℕ} {root : Pfn}
    {la : LinAddr} (hsep : pageTables.Separate (fun _ => false) m lvl root)
    (hmapped : pageTables.leaf m lvl root la.path ≠ none) :
    ∃ m', setUserAllPTEsWalkLamb la root lvl m = .ok m' ∧ OpenedToUser m m' lvl root la ∧
      setUserAllPTEsWalkLamb la root lvl m' = .ok m' := by
  obtain ⟨q, hq⟩ := Option.ne_none_iff_exists'.mp hmapped
  have hopened := openedToUser_updatePath hsep hq
  refine ⟨_, setUserAllPTEsWalkLamb_of_leaf hq, hopened, ?_⟩
  have hshape : pageTables.SameShape m
      (pageTables.updatePath SimplePte.setUser m lvl root la.path) :=
    keepsNext_setUser.sameShape_updatePath
  obtain ⟨q', hq'⟩ := hshape.exists_leaf hq
  rw [setUserAllPTEsWalkLamb_of_leaf hq',
    keepsNext_setUser.updatePath_idem SimplePte.setUser_setUser hq]

/-- A directory in the frame 1, without `US`: its first entry links to a table in the frame 2, which
maps the frame 5, and its second entry maps a large page. -/
def closedTables : Pfn → Key → SimplePte := fun t k =>
  if t = 1 ∧ k = 0 then SimplePte.setPte 2 false true true false false
  else if t = 1 ∧ k = 1 then SimplePte.setPte 512 false true true false false ||| SimplePte.bit true 7
  else if t = 2 ∧ k = 0 then SimplePte.setPte 5 false true true false false
  else 0

theorem separate_closedTables :
    pageTables.Separate (fun _ => false) closedTables dirLevel 1 := by
  have hpages : ∀ k f, f ∈ pageTables.entryFrames (fun _ => false)
      (pageTables.nodes closedTables 1) 2 (closedTables 1 k) → k = 0 ∧ f = 2 := by
    intro k f hf
    by_cases h0 : k = 0
    · subst h0
      have hchild : pageTables.child 2 (closedTables 1 0) = some 2 := by decide
      rw [entryFrames_of_child hchild, mem_nodes_one] at hf
      exact ⟨rfl, hf⟩
    by_cases h1 : k = 1
    · subst h1
      have hleaf : pageTables.present (closedTables 1 1) = true ∧
          pageTables.isLeaf 2 (closedTables 1 1) = true := by decide
      exact absurd ((mem_entryFrames_of_leaf hleaf.1 hleaf.2).mp hf).1 (by simp)
    · have habsent : pageTables.present (closedTables 1 k) = false := by
        unfold closedTables
        rw [if_neg fun h => h0 h.2, if_neg fun h => h1 h.2, if_neg fun h => absurd h.1 (by decide)]
        rfl
      rw [entryFrames_of_absent habsent] at hf
      exact absurd hf (Set.notMem_empty f)
  refine ⟨fun k hmem => ?_, fun k k' hne => ?_, fun k c _ => separate_one⟩
  · exact absurd (hpages k 1 hmem).2 (by decide)
  · refine Set.disjoint_left.mpr fun f hf hf' => hne ?_
    rw [(hpages k f hf).1, (hpages k' f hf').1]

/-- There, opening the first page opens two entries and does not open the large page. -/
theorem setUserAllPTEsWalkLamb_openedToUser_closedTables :
    (∃ m', setUserAllPTEsWalkLamb 0 1 dirLevel closedTables = .ok m' ∧
      OpenedToUser closedTables m' dirLevel 1 0 ∧
      setUserAllPTEsWalkLamb 0 1 dirLevel m' = .ok m') ∧
    walkPtes closedTables dirLevel 1 0 = [(1, 0), (2, 0)] ∧
    leafPte closedTables dirLevel 1 0x200000 = some (1, 1) :=
  ⟨setUserAllPTEsWalkLamb_openedToUser separate_closedTables (by decide), by decide, by decide⟩

end UmPgTblMgmt

end Umm
