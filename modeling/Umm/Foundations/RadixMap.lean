import Umm.Foundations.Allocator
import Umm.Foundations.RadixTree

/-!
# Mapping into a radix tree

`mapAt` enters a leaf at the end of a path, allocating the tables it needs on the way; started
without a table it allocates the root as well.  `Mapped` is what it does: exactly one path of the
table changes, only pages of the table are written, and only free frames join it.
-/

namespace Foundations

variable {K E F : Type}

namespace Layout

variable {A : Allocator F} {ε : Type} (L : Layout K E F)

/-! ## What mapping does -/

variable (own : E → Bool) (P : ℕ → E → Prop)

/-- The table may be mapped into: it is separate, its entries are in order, and nothing it holds is
free. -/
structure Mappable (lvl : ℕ) (h : Heap A (K → E)) (t : F) : Prop where
  /-- The table holds each of its frames in one way only. -/
  separate : L.Separate own h.mem lvl t
  /-- The entries are in order. -/
  entries : L.Entries P h.mem lvl t
  /-- What the table holds is in use. -/
  used : ∀ f ∈ L.frames own h.mem lvl t, ¬ h.IsFree f

/-- The heap has changed only by the growth of a table. -/
structure Grows (lvl : ℕ) (h : Heap A (K → E)) (root : Option F) (t : F) (h' : Heap A (K → E)) :
    Prop where
  /-- An existing table keeps its place. -/
  root_eq : ∀ r, root = some r → t = r
  /-- The table holds each of its frames in one way only. -/
  separate : L.Separate own h'.mem lvl t
  /-- The entries are in order. -/
  entries : L.Entries P h'.mem lvl t
  /-- The table keeps its pages. -/
  nodes_mono : ∀ r, root = some r → L.nodes h.mem lvl r ⊆ L.nodes h'.mem lvl t
  /-- The new pages of the table were free. -/
  nodes_subset : ∀ f ∈ L.nodes h'.mem lvl t,
    (∃ r, root = some r ∧ f ∈ L.nodes h.mem lvl r) ∨ h.IsFree f
  /-- The pages of the table are in use, and nothing else has been allocated. -/
  isFree : ∀ f, h'.IsFree f ↔ h.IsFree f ∧ f ∉ L.nodes h'.mem lvl t
  /-- Only pages of the table have been written. -/
  mem_eq : ∀ f, f ∉ L.nodes h'.mem lvl t → h'.mem f = h.mem f
  /-- Nothing has been freed. -/
  freeCalls : h'.freeCalls = h.freeCalls

/-- The table `t` is the given one, or a new one, with `e` entered at the path `v`. -/
structure Mapped (lvl : ℕ) (v : ℕ → K) (e : E) (h : Heap A (K → E)) (root : Option F) (t : F)
    (h' : Heap A (K → E)) : Prop extends L.Grows own P lvl h root t h' where
  /-- The table holds what it held, frames that were free, and the frame of the leaf. -/
  frames_subset : ∀ f ∈ L.frames own h'.mem lvl t,
    (∃ r, root = some r ∧ f ∈ L.frames own h.mem lvl r) ∨ h.IsFree f ∨
      own e = true ∧ f = L.next 1 e
  /-- Exactly the path `v` has changed. -/
  leaf : ∀ w, Agree lvl w v ∧ L.leaf h'.mem lvl t w = some (1, e) ∨
    ¬ Agree lvl w v ∧ L.leaf h'.mem lvl t w = root.bind fun r => L.leaf h.mem lvl r w

section Trans

variable {L own P} {lvl : ℕ} {h h₁ h₂ : Heap A (K → E)} {root : Option F} {t c : F} {e : E}
  {v : ℕ → K}

/-- Mapping into a table that has grown without a change of its paths. -/
theorem Grows.mapped (hgrows : L.Grows own P lvl h root t h₁)
    (hframes : ∀ f ∈ L.frames own h₁.mem lvl t,
      (∃ r, root = some r ∧ f ∈ L.frames own h.mem lvl r) ∨ h.IsFree f)
    (hleaf : ∀ w, L.leaf h₁.mem lvl t w = root.bind fun r => L.leaf h.mem lvl r w)
    (hmapped : L.Mapped own P lvl v e h₁ (some t) t h₂) : L.Mapped own P lvl v e h root t h₂ where
  root_eq := hgrows.root_eq
  separate := hmapped.separate
  entries := hmapped.entries
  nodes_mono := fun r hr => (hgrows.nodes_mono r hr).trans (hmapped.nodes_mono t rfl)
  nodes_subset := by
    intro f hf
    rcases hmapped.nodes_subset f hf with ⟨r, hr, hf⟩ | hf
    · exact hgrows.nodes_subset f (Option.some.inj hr ▸ hf)
    · exact Or.inr ((hgrows.isFree f).mp hf).1
  isFree := by
    intro f
    have hmono := hmapped.nodes_mono t rfl
    rw [hmapped.isFree, hgrows.isFree]
    exact ⟨fun hf => ⟨hf.1.1, hf.2⟩, fun hf => ⟨⟨hf.1, fun hmem => hf.2 (hmono hmem)⟩, hf.2⟩⟩
  mem_eq := by
    intro f hf
    rw [hmapped.mem_eq f hf]
    exact hgrows.mem_eq f fun hmem => hf (hmapped.nodes_mono t rfl hmem)
  freeCalls := hmapped.freeCalls.trans hgrows.freeCalls
  frames_subset := by
    intro f hf
    rcases hmapped.frames_subset f hf with ⟨r, hr, hf⟩ | hf | hf
    · exact (hframes f (Option.some.inj hr ▸ hf)).imp_right Or.inl
    · exact Or.inr (Or.inl ((hgrows.isFree f).mp hf).1)
    · exact Or.inr (Or.inr hf)
  leaf := by
    intro w
    have hw := hmapped.leaf w
    rw [Option.bind_some, hleaf] at hw
    exact hw

/-- The table below does not hold the root. -/
theorem Mapped.root_not_mem (ht : L.Mappable own P (lvl + 1) h t)
    (hmapped : L.Mapped own P lvl v e h (L.child (lvl + 1) (h.mem t (v (lvl + 1)))) c h₂)
    (hnew : own e = true →
      ¬ h.IsFree (L.next 1 e) ∧ L.next 1 e ∉ L.frames own h.mem (lvl + 1) t) :
    t ∉ L.frames own h₂.mem lvl c := by
  intro hmem
  rcases hmapped.frames_subset t hmem with hf | hf | ⟨hown, hf⟩
  · exact ht.separate.1 _ (mem_entryFrames_of_child hf)
  · exact ht.used t root_mem_frames hf
  · exact (hnew hown).2 (hf ▸ root_mem_frames)

/-- The page of the root is not written. -/
theorem Mapped.page_eq (ht : L.Mappable own P (lvl + 1) h t)
    (hmapped : L.Mapped own P lvl v e h (L.child (lvl + 1) (h.mem t (v (lvl + 1)))) c h₂)
    (hnew : own e = true →
      ¬ h.IsFree (L.next 1 e) ∧ L.next 1 e ∉ L.frames own h.mem (lvl + 1) t) :
    h₂.mem t = h.mem t :=
  hmapped.mem_eq t fun hmem => hmapped.root_not_mem ht hnew (nodes_subset_frames _ _ hmem)

/-- The tables below the root may be mapped into. -/
theorem Mappable.child {k : K} (ht : L.Mappable own P (lvl + 1) h t)
    (hc : L.child (lvl + 1) (h.mem t k) = some c) : L.Mappable own P lvl h c where
  separate := ht.separate.2.2 k c hc
  entries := (ht.entries k (child_eq_some.mp hc).1).2 c hc
  used := fun f hf =>
    ht.used f (mem_frames_succ.mpr (Or.inr ⟨k, mem_entryFrames_of_child ⟨c, hc, hf⟩⟩))

/-- The frame of a leaf that is new to a table is new to the tables below its root. -/
theorem not_mem_frames_of_child {k : K} {f : F} (hf : f ∉ L.frames own h.mem (lvl + 1) t) :
    ∀ r, L.child (lvl + 1) (h.mem t k) = some r → f ∉ L.frames own h.mem lvl r :=
  fun r hr hmem => hf (mem_frames_succ.mpr (Or.inr ⟨k, mem_entryFrames_of_child ⟨r, hr, hmem⟩⟩))

/-- The frame of a leaf that is new to a table is new to the table that it grows to. -/
theorem Grows.not_mem_frames {f : F} (hgrows : L.Grows own P lvl h root t h₁)
    (hframes : ∀ f ∈ L.frames own h₁.mem lvl t,
      (∃ r, root = some r ∧ f ∈ L.frames own h.mem lvl r) ∨ h.IsFree f)
    (hf : ¬ h.IsFree f ∧ ∀ r, root = some r → f ∉ L.frames own h.mem lvl r) :
    ¬ h₁.IsFree f ∧ f ∉ L.frames own h₁.mem lvl t := by
  obtain ⟨hused, hnot⟩ := hf
  refine ⟨fun hfree => hused ((hgrows.isFree f).mp hfree).1, fun hmem => ?_⟩
  rcases hframes f hmem with ⟨r, hr, hmem⟩ | hfree
  · exact hnot r hr hmem
  · exact hused hfree

end Trans

/-! ## The table to map into -/

section GetTable

variable [DecidableEq F]

/-- The given table, or a new one without entries. -/
def getTable (oom : ε) (root : Option F) (h : Heap A (K → E)) : Except ε (F × Heap A (K → E)) :=
  match root with
  | some t => .ok (t, h)
  | none => do
    let (t, h) ← h.alloc oom
    .ok (t, h.setPage t fun _ => L.empty)

variable {L own P} {lvl : ℕ} {h : Heap A (K → E)} {root : Option F} {oom : ε}

/-- `getTable` grows a table by its root at most: no path has changed. -/
theorem getTable_outcome (hroot : ∀ r, root = some r → L.Mappable own P (lvl + 1) h r) :
    Outcome (L.getTable oom root h)
      (fun p => L.Grows own P (lvl + 1) h root p.1 p.2 ∧ L.Mappable own P (lvl + 1) p.2 p.1 ∧
        (∀ f ∈ L.frames own p.2.mem (lvl + 1) p.1,
          (∃ r, root = some r ∧ f ∈ L.frames own h.mem (lvl + 1) r) ∨ h.IsFree f) ∧
        ∀ w, L.leaf p.2.mem (lvl + 1) p.1 w = root.bind fun r => L.leaf h.mem (lvl + 1) r w)
      (· = oom) := by
  unfold getTable
  cases root with
  | some t =>
    obtain ⟨hsep, hentries, hused⟩ := hroot t rfl
    have hnodes : ∀ f ∈ L.nodes h.mem (lvl + 1) t, ¬ h.IsFree f :=
      fun f hf => hused f (nodes_subset_frames _ _ hf)
    refine ⟨⟨fun r hr => Option.some.inj hr, hsep, hentries, fun r hr => ?_,
      fun f hf => Or.inl ⟨t, rfl, hf⟩, ?_, fun _ _ => rfl, rfl⟩, ⟨hsep, hentries, hused⟩,
      fun f hf => Or.inl ⟨t, rfl, hf⟩, fun _ => rfl⟩
    · exact Option.some.inj hr ▸ Set.Subset.rfl
    exact fun f => ⟨fun hf => ⟨hf, fun hmem => hnodes f hmem hf⟩, And.left⟩
  | none =>
    refine outcome_bind.mpr (Heap.alloc_outcome rfl fun t h₁ halloc => ?_)
    have hpage : (h₁.setPage t fun _ => L.empty).mem t = fun _ => L.empty := by simp
    have hframes : ∀ own f, f ∈ L.frames own (h₁.setPage t fun _ => L.empty).mem (lvl + 1) t ↔
        f = t := fun own f => mem_frames_of_page_empty hpage
    have habsent : ∀ k, L.present ((h₁.setPage t fun _ => L.empty).mem t k) = false := by
      intro k
      rw [hpage, L.present_empty]
    have hsep : L.Separate own (h₁.setPage t fun _ => L.empty).mem (lvl + 1) t := by
      refine ⟨fun k => ?_, fun k k' _ => ?_, fun k c hc => ?_⟩
      · rw [entryFrames_of_absent (habsent k)]
        exact Set.notMem_empty t
      · rw [entryFrames_of_absent (habsent k)]
        exact Set.empty_disjoint _
      · have hpresent := (child_eq_some.mp hc).1
        rw [habsent k] at hpresent
        cases hpresent
    have hentries : L.Entries P (h₁.setPage t fun _ => L.empty).mem (lvl + 1) t := by
      intro k hk
      rw [habsent k] at hk
      cases hk
    have hisFree : ∀ f, (h₁.setPage t fun _ => L.empty).IsFree f ↔ h.IsFree f ∧ f ≠ t :=
      halloc.isFree
    refine ⟨⟨fun r hr => (by cases hr), hsep, hentries, fun r hr => (by cases hr), fun f hf => ?_,
      fun f => ?_, fun f hf => ?_, halloc.freeCalls⟩, ⟨hsep, hentries, fun f hf => ?_⟩,
      fun f hf => ?_, fun w => ?_⟩
    · rw [hframes] at hf
      exact Or.inr (hf ▸ halloc.free)
    · rw [hframes]
      exact hisFree f
    · rw [hframes] at hf
      rw [Heap.mem_setPage_of_ne _ _ hf, halloc.mem]
    · rw [hframes] at hf
      rw [hisFree]
      exact fun hfree => hfree.2 hf
    · rw [hframes] at hf
      exact Or.inr (hf ▸ halloc.free)
    · exact leaf_of_page_empty hpage w

end GetTable

/-! ## Mapping -/

section MapAt

variable [DecidableEq F] [DecidableEq K]

/-- Overwrite one entry of a table. -/
def setEntry (h : Heap A (K → E)) (t : F) (k : K) (e : E) : Heap A (K → E) :=
  h.setPage t (Function.update (h.mem t) k e)

/-- Enter `e` at the level `mapLvl` of the path `v`, in the given table of the current level or in a
new one, and return the table. -/
def mapAt (oom : ε) (e : E) (v : ℕ → K) (mapLvl : ℕ) :
    ℕ → Option F → Heap A (K → E) → Except ε (F × Heap A (K → E))
  | 0, root, h => L.getTable oom root h
  | curLvl + 1, root, h => do
    let (t, h) ← L.getTable oom root h
    if curLvl + 1 = mapLvl then .ok (t, setEntry h t (v (curLvl + 1)) e)
    else if L.present (h.mem t (v (curLvl + 1))) then do
      let next := L.next (curLvl + 1) (h.mem t (v (curLvl + 1)))
      let (_, h) ← mapAt oom e v mapLvl curLvl (some next) h
      .ok (t, h)
    else do
      let (c, h) ← mapAt oom e v mapLvl curLvl none h
      .ok (t, setEntry h t (v (curLvl + 1)) (L.link c))

variable {L own P} {lvl : ℕ} {h h₁ h₂ h₃ : Heap A (K → E)} {root : Option F} {t c : F} {e e' : E}
  {v : ℕ → K} {oom : ε}

/-- Entering a leaf into a table of level 1. -/
theorem mapped_setEntry (ht : L.Mappable own P 1 h t) (hP : P 1 e) (hpresent : L.present e = true)
    (hnew : own e = true → L.next 1 e ∉ L.frames own h.mem 1 t) :
    L.Mapped own P 1 v e h (some t) t (setEntry h t (v 1) e) := by
  have hpage : (setEntry h t (v 1) e).mem t = Function.update (h.mem t) (v 1) e := by
    simp [setEntry]
  have hnochild : ∀ e c, L.child 1 e ≠ some c := by
    intro e c hc
    have hleaf := (child_eq_some.mp hc).2.1
    rw [L.isLeaf_one] at hleaf
    cases hleaf
  have hgraft : Grafts L h.mem (setEntry h t (v 1) e).mem 0 t (v 1) e :=
    ⟨hpage, fun k' _ c hc => absurd hc (hnochild _ c)⟩
  have hentry : ∀ f, f ∈ L.entryFrames own (L.frames own (setEntry h t (v 1) e).mem 0) 1 e ↔
      own e = true ∧ f = L.next 1 e :=
    fun _ => mem_entryFrames_of_leaf hpresent (L.isLeaf_one e)
  have hself : (setEntry h t (v 1) e).mem t (v 1) = e := hgraft.entry_self
  have hleaf : L.leaf (setEntry h t (v 1) e).mem 1 t v = some (1, e) := by
    rw [leaf_of_leaf (by rwa [hself]) (L.isLeaf_one _), hself]
  refine { root_eq := fun r hr => Option.some.inj hr, separate := ?_, entries := ?_,
           nodes_mono := fun r hr => ?_, nodes_subset := fun f hf => ?_, isFree := fun f => ?_,
           mem_eq := fun f hf => ?_, freeCalls := rfl, frames_subset := fun f hf => ?_,
           leaf := fun w => ?_ }
  · refine hgraft.separate ht.separate ?_ (fun k' _ => ?_) fun c hc => absurd hc (hnochild _ c)
    · rw [hentry]
      exact fun hroot => hnew hroot.1 (hroot.2 ▸ root_mem_frames)
    · refine Set.disjoint_left.mpr fun f hf hf' => ?_
      rw [hentry] at hf
      exact hnew hf.1 (hf.2 ▸ mem_frames_succ.mpr (Or.inr ⟨k', hf'⟩))
  · exact hgraft.entries ht.entries (fun _ => hP) fun c hc => absurd hc (hnochild _ c)
  · obtain rfl := Option.some.inj hr
    intro f hf
    rw [mem_nodes_one] at hf ⊢
    exact hf
  · rw [mem_nodes_one] at hf
    exact Or.inl ⟨t, rfl, mem_nodes_one.mpr hf⟩
  · rw [mem_nodes_one]
    refine ⟨fun hf => ⟨hf, fun heq => ?_⟩, And.left⟩
    exact ht.used f (heq ▸ root_mem_frames) hf
  · rw [mem_nodes_one] at hf
    exact Heap.mem_setPage_of_ne _ _ hf
  · rw [hgraft.mem_frames, hentry] at hf
    rcases hf with rfl | hf | ⟨k', -, hf⟩
    · exact Or.inl ⟨f, rfl, root_mem_frames⟩
    · exact Or.inr (Or.inr hf)
    · exact Or.inl ⟨t, rfl, mem_frames_succ.mpr (Or.inr ⟨k', hf⟩)⟩
  · by_cases hw : w 1 = v 1
    · have hagree : Agree 1 w v := agree_succ.mpr ⟨hw, agree_zero w v⟩
      exact Or.inl ⟨hagree, (leaf_of_agree hagree).trans hleaf⟩
    · exact Or.inr ⟨fun hagree => hw (agree_succ.mp hagree).1, hgraft.leaf_of_ne hw⟩

omit [DecidableEq K] [DecidableEq F] in
/-- An entry that is not a leaf is absent or links to a table. -/
theorem absent_or_child {l : ℕ} (hentry : L.present e = true → L.isLeaf l e = false) :
    L.present e = false ∨ ∃ c, L.child l e = some c := by
  rcases L.entry_cases l e with habsent | ⟨hpresent, hleaf⟩ | hchild
  · exact Or.inl habsent
  · rw [hentry hpresent] at hleaf
    cases hleaf
  · exact Or.inr hchild

omit [DecidableEq F] in
/-- The paths of a table once the one below has been mapped into and linked to its entry. -/
theorem Grafts.leaf_of_mapped (hgraft : Grafts L h.mem h₃.mem lvl t (v (lvl + 1)) e')
    (hentry : L.present (h.mem t (v (lvl + 1))) = true →
      L.isLeaf (lvl + 1) (h.mem t (v (lvl + 1))) = false)
    (hmapped : L.Mapped own P lvl v e h (L.child (lvl + 1) (h.mem t (v (lvl + 1)))) c h₂)
    (hchild : L.child (lvl + 1) e' = some c)
    (hbelow : ∀ f ∈ L.nodes h₂.mem lvl c, h₃.mem f = h₂.mem f) (w : ℕ → K) :
    Agree (lvl + 1) w v ∧ L.leaf h₃.mem (lvl + 1) t w = some (1, e) ∨
      ¬ Agree (lvl + 1) w v ∧ L.leaf h₃.mem (lvl + 1) t w = L.leaf h.mem (lvl + 1) t w := by
  by_cases hw : w (lvl + 1) = v (lvl + 1)
  · have hself : h₃.mem t (w (lvl + 1)) = e' := by rw [hw, hgraft.entry_self]
    rw [agree_succ, leaf_of_child (by rwa [hself]), leaf_congr hbelow]
    rcases hmapped.leaf w with ⟨hagree, hleaf⟩ | ⟨hagree, hleaf⟩
    · exact Or.inl ⟨⟨hw, hagree⟩, hleaf⟩
    · refine Or.inr ⟨fun hboth => hagree hboth.2, hleaf.trans ?_⟩
      rcases absent_or_child hentry with habsent | ⟨c', hc'⟩
      · have hnone : L.child (lvl + 1) (h.mem t (v (lvl + 1))) = none := by
          simp [child, habsent]
        rw [hnone, leaf_of_absent (hw ▸ habsent)]
        rfl
      · rw [hc', Option.bind_some, leaf_of_child (hw ▸ hc')]
  · exact Or.inr ⟨fun hagree => hw (agree_succ.mp hagree).1, hgraft.leaf_of_ne hw⟩

omit [DecidableEq F] in
/-- Mapping into the table that an entry of the root leads to, or into a new one that the entry is
made to lead to. -/
theorem Mapped.of_child (ht : L.Mappable own P (lvl + 1) h t)
    (hentry : L.present (h.mem t (v (lvl + 1))) = true →
      L.isLeaf (lvl + 1) (h.mem t (v (lvl + 1))) = false)
    (hmapped : L.Mapped own P lvl v e h (L.child (lvl + 1) (h.mem t (v (lvl + 1)))) c h₂)
    (hchild : L.child (lvl + 1) e' = some c) (hP : P (lvl + 1) e')
    (hnew : own e = true →
      ¬ h.IsFree (L.next 1 e) ∧ L.next 1 e ∉ L.frames own h.mem (lvl + 1) t)
    (hpage : h₃.mem t = Function.update (h.mem t) (v (lvl + 1)) e')
    (hrest : ∀ f, f ≠ t → h₃.mem f = h₂.mem f) (hpal : h₃.pal = h₂.pal)
    (hcalls : h₃.freeCalls = h₂.freeCalls) : L.Mapped own P (lvl + 1) v e h (some t) t h₃ := by
  obtain ⟨hroot, hdisjoint, -⟩ := ht.separate
  have hisFree : ∀ f, h₃.IsFree f ↔ h₂.IsFree f := by
    intro f
    rw [Heap.IsFree, Heap.IsFree, hpal]
  have hheld : ∀ {k f}, f ∈ L.entryFrames own (L.frames own h.mem lvl) (lvl + 1) (h.mem t k) →
      f ∈ L.frames own h.mem (lvl + 1) t := fun hf => mem_frames_succ.mpr (Or.inr ⟨_, hf⟩)
  -- the table below holds nothing that the root or its other entries hold
  have htnot := hmapped.root_not_mem ht hnew
  have hapart : ∀ k' ≠ v (lvl + 1), ∀ f ∈ L.frames own h₂.mem lvl c,
      f ∉ L.entryFrames own (L.frames own h.mem lvl) (lvl + 1) (h.mem t k') := by
    intro k' hk f hmem hother
    rcases hmapped.frames_subset f hmem with hf | hf | ⟨hown, hf⟩
    · exact Set.disjoint_left.mp (hdisjoint _ _ hk) hother (mem_entryFrames_of_child hf)
    · exact ht.used f (hheld hother) hf
    · exact (hnew hown).2 (hf ▸ hheld hother)
  have hnodes : L.nodes h₂.mem lvl c ⊆ L.frames own h₂.mem lvl c := nodes_subset_frames lvl c
  have hbelow : ∀ f ∈ L.nodes h₂.mem lvl c, h₃.mem f = h₂.mem f :=
    fun f hf => hrest f fun heq => htnot (heq ▸ hnodes hf)
  have hgraft : Grafts L h.mem h₃.mem lvl t (v (lvl + 1)) e' := by
    refine ⟨hpage, fun k' hk c' hc' f hf => ?_⟩
    have hother : f ∈ L.entryFrames own (L.frames own h.mem lvl) (lvl + 1) (h.mem t k') :=
      mem_entryFrames_of_nodes hc' hf
    rw [hrest f fun heq => hroot k' (heq ▸ hother)]
    exact hmapped.mem_eq f fun hmem => hapart k' hk f (hnodes hmem) hother
  have hnewEntry : ∀ own, L.entryFrames own (L.frames own h₃.mem lvl) (lvl + 1) e' =
      L.frames own h₂.mem lvl c := by
    intro own
    rw [entryFrames_of_child hchild, frames_congr hbelow]
  refine { root_eq := fun r hr => Option.some.inj hr, separate := ?_, entries := ?_,
           nodes_mono := fun r hr => ?_, nodes_subset := fun f hf => ?_, isFree := fun f => ?_,
           mem_eq := fun f hf => ?_, freeCalls := hcalls.trans hmapped.freeCalls,
           frames_subset := fun f hf => ?_, leaf := fun w => ?_ }
  · refine hgraft.separate ht.separate (by rwa [hnewEntry]) (fun k' hk => ?_) fun c' hc' => ?_
    · rw [hnewEntry]
      exact Set.disjoint_left.mpr (hapart k' hk)
    · obtain rfl := Option.some.inj (hchild.symm.trans hc')
      exact separate_congr hbelow hmapped.separate
  · refine hgraft.entries ht.entries (fun _ => hP) fun c' hc' => ?_
    obtain rfl := Option.some.inj (hchild.symm.trans hc')
    exact entries_congr hbelow hmapped.entries
  · obtain rfl := Option.some.inj hr
    rintro f (hf | ⟨k', hf⟩)
    · exact hgraft.mem_frames.mpr (Or.inl hf)
    · by_cases hk : k' = v (lvl + 1)
      · subst hk
        rw [hgraft.mem_frames, hnewEntry]
        rcases absent_or_child hentry with habsent | ⟨c', hc'⟩
        · rw [entryFrames_of_absent habsent] at hf
          exact absurd hf (Set.notMem_empty f)
        · rw [entryFrames_of_child hc'] at hf
          exact Or.inr (Or.inl (hmapped.nodes_mono c' hc' hf))
      · exact hgraft.mem_frames.mpr (Or.inr (Or.inr ⟨k', hk, hf⟩))
  · rw [hgraft.mem_frames, hnewEntry] at hf
    rcases hf with rfl | hf | ⟨k', -, hf⟩
    · exact Or.inl ⟨f, rfl, root_mem_frames⟩
    · rcases hmapped.nodes_subset f hf with ⟨r, hr, hf⟩ | hf
      · exact Or.inl ⟨t, rfl, nodes_subset_of_child hr hf⟩
      · exact Or.inr hf
    · exact Or.inl ⟨t, rfl, Or.inr ⟨k', hf⟩⟩
  · rw [hisFree, hmapped.isFree, hgraft.mem_frames, hnewEntry]
    refine ⟨fun ⟨hfree, hnot⟩ => ⟨hfree, ?_⟩, fun ⟨hfree, hnot⟩ => ⟨hfree, fun hf => hnot ?_⟩⟩
    · rintro (rfl | hf | ⟨k', -, hf⟩)
      · exact ht.used _ root_mem_frames hfree
      · exact hnot hf
      · exact ht.used f (hheld (entryFrames_nodes_subset k' hf)) hfree
    · exact Or.inr (Or.inl hf)
  · rw [hgraft.mem_frames, hnewEntry] at hf
    obtain ⟨hne, hf⟩ := not_or.mp hf
    rw [hrest f hne]
    exact hmapped.mem_eq f (not_or.mp hf).1
  · rw [hgraft.mem_frames, hnewEntry] at hf
    rcases hf with rfl | hf | ⟨k', -, hf⟩
    · exact Or.inl ⟨f, rfl, root_mem_frames⟩
    · rcases hmapped.frames_subset f hf with hf | hf | hf
      · exact Or.inl ⟨t, rfl, hheld (mem_entryFrames_of_child hf)⟩
      · exact Or.inr (Or.inl hf)
      · exact Or.inr (Or.inr hf)
    · exact Or.inl ⟨t, rfl, hheld hf⟩
  · exact hgraft.leaf_of_mapped hentry hmapped hchild hbelow w

/-- Mapping a leaf of level 1 into the given table, or into a new one. -/
theorem mapAt_outcome (hP : P 1 e) (hlink : ∀ l c, 2 ≤ l → P l (L.link c))
    (hleaf : ∀ l e, P l e → L.isLeaf l e = true → l = 1) (hpresent : L.present e = true)
    (hlvl : 1 ≤ lvl) (htop : lvl ≤ L.top) (hroot : ∀ r, root = some r → L.Mappable own P lvl h r)
    (hnew : own e = true → ¬ h.IsFree (L.next 1 e) ∧
      ∀ r, root = some r → L.next 1 e ∉ L.frames own h.mem lvl r) :
    Outcome (L.mapAt oom e v 1 lvl root h) (fun p => L.Mapped own P lvl v e h root p.1 p.2)
      (· = oom) := by
  induction lvl generalizing root h with
  | zero => omega
  | succ lvl ih =>
    unfold mapAt
    refine outcome_bind.mpr ((getTable_outcome hroot).mono ?_ fun _ h => h)
    rintro ⟨t, h₁⟩ ⟨hgrows, ht, hframes, hpaths⟩
    have hnew₁ : own e = true →
        ¬ h₁.IsFree (L.next 1 e) ∧ L.next 1 e ∉ L.frames own h₁.mem (lvl + 1) t :=
      fun hown => hgrows.not_mem_frames hframes (hnew hown)
    have hfinish : ∀ h₃, L.Mapped own P (lvl + 1) v e h₁ (some t) t h₃ →
        L.Mapped own P (lvl + 1) v e h root t h₃ :=
      fun _ hmapped => hgrows.mapped hframes hpaths hmapped
    by_cases hone : lvl + 1 = 1
    · obtain rfl : lvl = 0 := by omega
      exact hfinish _ (mapped_setEntry ht hP hpresent fun hown => (hnew₁ hown).2)
    simp only [if_neg hone]
    have hentry : L.present (h₁.mem t (v (lvl + 1))) = true →
        L.isLeaf (lvl + 1) (h₁.mem t (v (lvl + 1))) = false := by
      intro hcur
      by_contra hisLeaf
      exact hone (hleaf _ _ (ht.entries _ hcur).1 (by simpa using hisLeaf))
    cases hcur : L.present (h₁.mem t (v (lvl + 1))) with
    | true =>
      have hchild := child_eq_some.mpr ⟨hcur, hentry hcur, rfl⟩
      simp only [if_true]
      refine outcome_bind.mpr ((ih (by omega) (by omega) (fun r hr => ?_) fun hown => ?_).mono ?_
        fun _ h => h)
      · exact ht.child (hchild.trans hr)
      · exact ⟨(hnew₁ hown).1, fun r hr =>
          not_mem_frames_of_child (hnew₁ hown).2 r (hchild.trans hr)⟩
      · rintro ⟨c, h₂⟩ hmapped
        obtain rfl := hmapped.root_eq _ rfl
        rw [← hchild] at hmapped
        have hpage : h₂.mem t = h₁.mem t := hmapped.page_eq ht hnew₁
        refine hfinish h₂ (hmapped.of_child ht hentry hchild (ht.entries _ hcur).1 hnew₁ ?_
          (fun _ _ => rfl) rfl rfl)
        rw [hpage, Function.update_eq_self]
    | false =>
      have hnone : L.child (lvl + 1) (h₁.mem t (v (lvl + 1))) = none := by
        simp [child, hcur]
      simp only [Bool.false_eq_true, if_false]
      refine outcome_bind.mpr ((ih (by omega) (by omega) (fun r hr => (by cases hr))
        fun hown => ?_).mono ?_
        fun _ h => h)
      · exact ⟨(hnew₁ hown).1, fun r hr => by cases hr⟩
      · rintro ⟨c, h₂⟩ hmapped
        rw [← hnone] at hmapped
        have hpage : h₂.mem t = h₁.mem t := hmapped.page_eq ht hnew₁
        refine hfinish _ (hmapped.of_child ht hentry (child_link (by omega) htop)
          (hlink _ c (by omega)) hnew₁ ?_ (fun f hf => ?_) rfl rfl)
        · simp [setEntry, hpage]
        · exact Heap.mem_setPage_of_ne _ _ hf

end MapAt

end Layout

end Foundations
