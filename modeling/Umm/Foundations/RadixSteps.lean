import Umm.Foundations.RadixPath
import Umm.Foundations.RadixUpdate

/-!
# The entries that a walk reads

`stepsOn` lists the tables that the walk along a path reads, with their levels.  In a tree, no table
is read at two levels, so that the leaf of one path is an entry on the way of another path only if
both paths end there.

`SameShape` says that the entries of two memories lead to the same places, whatever their other
bits.  Walks go the same way in both.
-/

namespace Foundations

namespace Layout

variable {K E F : Type} (L : Layout K E F)

/-- The tables that the walk along a path reads, with their levels. -/
def stepsOn (m : F → K → E) : ℕ → F → (ℕ → K) → List (ℕ × F)
  | 0, _, _ => []
  | lvl + 1, t, v => (lvl + 1, t) ::
      ((L.child (lvl + 1) (m t (v (lvl + 1)))).map fun c => stepsOn m lvl c v).getD []

/-- The entries of two memories lead to the same places. -/
structure SameShape (m m' : F → K → E) : Prop where
  /-- They are in use, or not. -/
  present : ∀ t k, L.present (m' t k) = L.present (m t k)
  /-- They are leaves, or not. -/
  isLeaf : ∀ l t k, L.isLeaf l (m' t k) = L.isLeaf l (m t k)
  /-- They lead to the same frame. -/
  next : ∀ l t k, L.next l (m' t k) = L.next l (m t k)

variable {L} {m m' : F → K → E} {f : E → E} {p : E → Bool} {l l' lvl : ℕ} {t s c : F}
  {v w : ℕ → K} {q : ℕ × E}

/-! ## The steps of a walk -/

theorem stepsOn_of_leaf (hleaf : L.isLeaf (lvl + 1) (m t (v (lvl + 1))) = true) :
    L.stepsOn m (lvl + 1) t v = [(lvl + 1, t)] := by
  rw [stepsOn, child, hleaf, Bool.not_true, Bool.and_false, if_neg Bool.false_ne_true,
    Option.map_none, Option.getD_none]

/-- The steps are the root, and those in the table that its entry links to. -/
theorem mem_stepsOn_succ : (l, s) ∈ L.stepsOn m (lvl + 1) t v ↔ l = lvl + 1 ∧ s = t ∨
    ∃ c, L.child (lvl + 1) (m t (v (lvl + 1))) = some c ∧ (l, s) ∈ L.stepsOn m lvl c v := by
  rw [stepsOn, List.mem_cons, Prod.mk.injEq]
  refine or_congr Iff.rfl ?_
  cases L.child (lvl + 1) (m t (v (lvl + 1))) with
  | none => simp
  | some c => simp

/-- A walk reads pages of the table. -/
theorem mem_nodes_of_stepsOn (h : (l, s) ∈ L.stepsOn m lvl t v) : s ∈ L.nodes m lvl t := by
  induction lvl generalizing t with
  | zero => cases h
  | succ lvl ih =>
    rcases mem_stepsOn_succ.mp h with ⟨-, rfl⟩ | ⟨c, hc, hbelow⟩
    · exact root_mem_frames
    · exact nodes_subset_of_child hc (ih hbelow)

/-- The walk ends with the table of the leaf. -/
theorem locate_mem_stepsOn (h : L.locate m lvl t v = some (l, s)) :
    (l, s) ∈ L.stepsOn m lvl t v := by
  induction lvl generalizing t with
  | zero => cases h
  | succ lvl ih =>
    unfold locate at h
    split_ifs at h with hpresent hleaf
    · obtain ⟨rfl, rfl⟩ := Prod.mk.inj (Option.some.inj h)
      exact mem_stepsOn_succ.mpr (Or.inl ⟨rfl, rfl⟩)
    · refine mem_stepsOn_succ.mpr (Or.inr ⟨_, child_eq_some.mpr ⟨hpresent, ?_, rfl⟩, ih h⟩)
      exact Bool.eq_false_iff.mpr hleaf

/-- A walk ends at the same entry as another one that takes the same keys. -/
theorem locate_of_agree (h : Agree lvl v w) : L.locate m lvl t v = L.locate m lvl t w := by
  induction lvl generalizing t with
  | zero => rfl
  | succ lvl ih =>
    obtain ⟨hkey, hrest⟩ := agree_succ.mp h
    rw [locate, locate, hkey, ih hrest]

/-- A walk that reads a leaf ends there. -/
theorem locate_of_mem_stepsOn (h : (l, s) ∈ L.stepsOn m lvl t v)
    (hpresent : L.present (m s (v l)) = true) (hleaf : L.isLeaf l (m s (v l)) = true) :
    L.locate m lvl t v = some (l, s) := by
  induction lvl generalizing t with
  | zero => cases h
  | succ lvl ih =>
    unfold locate
    rcases mem_stepsOn_succ.mp h with ⟨rfl, rfl⟩ | ⟨c, hc, hbelow⟩
    · rw [if_pos hpresent, if_pos hleaf]
    · obtain ⟨hcur, hlink, rfl⟩ := child_eq_some.mp hc
      rw [if_pos hcur, if_neg (Bool.eq_false_iff.mp hlink)]
      exact ih hbelow

/-- In a tree, a table that two walks read is read at one level, below the same keys. -/
theorem Separate.path_of_stepsOn (hsep : L.Separate (fun _ => false) m lvl t)
    (hv : (l, s) ∈ L.stepsOn m lvl t v) (hw : (l', s) ∈ L.stepsOn m lvl t w) :
    l = l' ∧ ∀ i, l < i → i ≤ lvl → v i = w i := by
  induction lvl generalizing t with
  | zero => cases hv
  | succ lvl ih =>
    obtain ⟨hroot, hdisjoint, hbelow⟩ := hsep
    -- the root is read at its own level only
    have hnot : ∀ {u c}, L.child (lvl + 1) (m t (u (lvl + 1))) = some c →
        ∀ {i}, (i, t) ∉ L.stepsOn m lvl c u := fun hc _ hmem =>
      hroot _ (mem_entryFrames_of_nodes hc (mem_nodes_of_stepsOn hmem))
    rcases mem_stepsOn_succ.mp hv with ⟨rfl, rfl⟩ | ⟨c, hc, hv'⟩
    · rcases mem_stepsOn_succ.mp hw with ⟨rfl, -⟩ | ⟨c', hc', hw'⟩
      · exact ⟨rfl, fun i h1 h2 => absurd h1 (by omega)⟩
      · exact absurd hw' (hnot hc')
    · rcases mem_stepsOn_succ.mp hw with ⟨-, rfl⟩ | ⟨c', hc', hw'⟩
      · exact absurd hv' (hnot hc)
      -- below the root, the two walks have taken the same entry
      have hkey : v (lvl + 1) = w (lvl + 1) := by
        by_contra hne
        exact Set.disjoint_left.mp (hdisjoint _ _ hne)
          (mem_entryFrames_of_nodes hc (mem_nodes_of_stepsOn hv'))
          (mem_entryFrames_of_nodes hc' (mem_nodes_of_stepsOn hw'))
      rw [← hkey, hc] at hc'
      obtain rfl := Option.some.inj hc'
      obtain ⟨hlevel, hpath⟩ := ih (hbelow _ c hc) hv' hw'
      refine ⟨hlevel, fun i h1 h2 => ?_⟩
      rcases Nat.lt_or_eq_of_le h2 with hlt | rfl
      · exact hpath i h1 (by omega)
      · exact hkey

/-- In a tree, a walk that reads the leaf of another path ends there. -/
theorem Separate.locate_eq (hsep : L.Separate (fun _ => false) m lvl t)
    (hw : L.locate m lvl t w = some (l, s)) (hv : (l', s) ∈ L.stepsOn m lvl t v)
    (hkey : v l' = w l) : L.locate m lvl t v = some (l, s) := by
  obtain rfl := (hsep.path_of_stepsOn hv (locate_mem_stepsOn hw)).1
  have hleaf : L.leaf m lvl t w = some (l', m s (w l')) := by
    rw [leaf, hw, Option.map_some]
  obtain ⟨-, -, hpresent, hisLeaf⟩ := leaf_spec hleaf
  exact locate_of_mem_stepsOn hv (by rwa [hkey]) (by rwa [hkey])

/-- A walk all of whose entries have `p` ends at a leaf with `p`. -/
theorem exists_locate_of_allOn (hp : ∀ e, p e = true → L.present e = true)
    (hall : L.allOn p m lvl t v = true) :
    ∃ l s, L.locate m lvl t v = some (l, s) ∧ p (m s (v l)) = true := by
  induction lvl generalizing t with
  | zero => cases hall
  | succ lvl ih =>
    rw [allOn, Bool.and_eq_true, Bool.or_eq_true] at hall
    obtain ⟨hcur, hrest⟩ := hall
    unfold locate
    rw [if_pos (hp _ hcur)]
    by_cases hleaf : L.isLeaf (lvl + 1) (m t (v (lvl + 1))) = true
    · exact ⟨lvl + 1, t, by rw [if_pos hleaf], hcur⟩
    · rw [if_neg hleaf]
      exact ih (hrest.resolve_left hleaf)

/-! ## Memories of one shape -/

namespace SameShape

theorem trans {m'' : F → K → E} (h : L.SameShape m m') (h' : L.SameShape m' m'') :
    L.SameShape m m'' where
  present t k := (h'.present t k).trans (h.present t k)
  isLeaf l t k := (h'.isLeaf l t k).trans (h.isLeaf l t k)
  next l t k := (h'.next l t k).trans (h.next l t k)

theorem child_eq (h : L.SameShape m m') (k : K) : L.child l (m' t k) = L.child l (m t k) := by
  rw [child, child, h.present, h.isLeaf, h.next]

/-- Walks read the same tables. -/
theorem stepsOn_eq (h : L.SameShape m m') : L.stepsOn m' lvl t v = L.stepsOn m lvl t v := by
  induction lvl generalizing t with
  | zero => rfl
  | succ lvl ih =>
    rw [stepsOn, stepsOn, h.child_eq]
    simp only [ih]

/-- They end at the same entry. -/
theorem locate_eq (h : L.SameShape m m') : L.locate m' lvl t v = L.locate m lvl t v := by
  induction lvl generalizing t with
  | zero => rfl
  | succ lvl ih => rw [locate, locate, h.present, h.isLeaf, h.next, ih]

/-- A path that ends at a leaf does so in both. -/
theorem exists_leaf (h : L.SameShape m m') (hleaf : L.leaf m lvl t v = some q) :
    ∃ q', L.leaf m' lvl t v = some q' := by
  obtain ⟨p, hp, -⟩ := Option.map_eq_some_iff.mp hleaf
  exact ⟨_, by rw [leaf, h.locate_eq, hp, Option.map_some]⟩

end SameShape

/-! ## Updating a path -/

section Update

variable [DecidableEq K] [DecidableEq F]

/-- Rewriting an entry keeps the shape. -/
theorem KeepsNext.sameShape_update (hf : L.KeepsNext f) (t : F) (k : K) :
    L.SameShape m (Function.update m t (Function.update (m t) k (f (m t k)))) := by
  have hentry : ∀ s k', Function.update m t (Function.update (m t) k (f (m t k))) s k' = m s k' ∨
      Function.update m t (Function.update (m t) k (f (m t k))) s k' = f (m s k') := by
    intro s k'
    by_cases hs : s = t
    · subst hs
      rw [Function.update_self]
      by_cases hk : k' = k
      · subst hk
        exact Or.inr (Function.update_self ..)
      · exact Or.inl (Function.update_of_ne hk ..)
    · exact Or.inl (by rw [Function.update_of_ne hs])
  refine ⟨fun s k' => ?_, fun l s k' => ?_, fun l s k' => ?_⟩
  · rcases hentry s k' with h | h
    · rw [h]
    · rw [h, hf.present]
  · rcases hentry s k' with h | h
    · rw [h]
    · rw [h, hf.isLeaf]
  · rcases hentry s k' with h | h
    · rw [h]
    · rw [h, hf.next]

/-- Rewriting the entries on a path keeps the shape. -/
theorem KeepsNext.sameShape_updatePath (hf : L.KeepsNext f) :
    L.SameShape m (L.updatePath f m lvl t v) := by
  induction lvl generalizing m t with
  | zero => exact ⟨fun _ _ => rfl, fun _ _ _ => rfl, fun _ _ _ => rfl⟩
  | succ lvl ih =>
    unfold updatePath
    simp only
    split_ifs
    · exact hf.sameShape_update t _
    · exact (hf.sameShape_update t _).trans ih
    · exact ⟨fun _ _ => rfl, fun _ _ _ => rfl, fun _ _ _ => rfl⟩

/-- The entries that the walk reads are rewritten, and no others. -/
theorem KeepsNext.updatePath_apply (hf : L.KeepsNext f) (hidem : ∀ e, f (f e) = f e)
    (hleaf : L.leaf m lvl t v = some q) (s : F) (k : K) :
    ((∃ l, (l, s) ∈ L.stepsOn m lvl t v ∧ k = v l) ∧ L.updatePath f m lvl t v s k = f (m s k)) ∨
      (¬ ∃ l, (l, s) ∈ L.stepsOn m lvl t v ∧ k = v l) ∧ L.updatePath f m lvl t v s k = m s k := by
  induction lvl generalizing m t q with
  | zero => cases hleaf
  | succ lvl ih =>
    let m₁ := Function.update m t (Function.update (m t) (v (lvl + 1)) (f (m t (v (lvl + 1)))))
    have hself : m₁ t (v (lvl + 1)) = f (m t (v (lvl + 1))) := by simp [m₁]
    have hother : ¬ (s = t ∧ k = v (lvl + 1)) → m₁ s k = m s k := by
      intro hne
      by_cases hs : s = t
      · subst hs
        simp only [m₁, Function.update_self, Function.update_of_ne (fun hk => hne ⟨rfl, hk⟩)]
      · simp only [m₁, Function.update_of_ne hs]
    rcases L.entry_cases (lvl + 1) (m t (v (lvl + 1))) with
      habsent | ⟨hpresent, hisLeaf⟩ | ⟨c, hc⟩
    · rw [leaf_of_absent habsent] at hleaf
      cases hleaf
    · have hupdate : L.updatePath f m (lvl + 1) t v = m₁ := by
        unfold updatePath
        simp only [hpresent, hisLeaf, if_true, m₁]
      rw [hupdate, stepsOn_of_leaf hisLeaf]
      simp only [List.mem_singleton, Prod.mk.injEq]
      by_cases hhere : s = t ∧ k = v (lvl + 1)
      · obtain ⟨rfl, rfl⟩ := hhere
        exact Or.inl ⟨⟨lvl + 1, ⟨rfl, rfl⟩, rfl⟩, hself⟩
      · refine Or.inr ⟨?_, hother hhere⟩
        rintro ⟨l, ⟨rfl, rfl⟩, hk⟩
        exact hhere ⟨rfl, hk⟩
    · obtain ⟨hpresent, hlink, hnext⟩ := child_eq_some.mp hc
      have hupdate : L.updatePath f m (lvl + 1) t v = L.updatePath f m₁ lvl c v := by
        conv_lhs => unfold updatePath
        simp only [hpresent, hlink, hnext, if_true, Bool.false_eq_true, if_false, m₁]
      have hshape : L.SameShape m m₁ := hf.sameShape_update t _
      rw [leaf_of_child hc] at hleaf
      obtain ⟨q₁, hq₁⟩ := hshape.exists_leaf hleaf
      have hbelow := ih hq₁
      rw [hshape.stepsOn_eq] at hbelow
      rw [hupdate]
      simp only [mem_stepsOn_succ, hc, Option.some.injEq, exists_eq_left']
      by_cases hhere : s = t ∧ k = v (lvl + 1)
      · obtain ⟨rfl, rfl⟩ := hhere
        refine Or.inl ⟨⟨lvl + 1, Or.inl ⟨rfl, rfl⟩, rfl⟩, ?_⟩
        -- an entry that is met again below is rewritten twice
        rcases hbelow with ⟨-, hsame⟩ | ⟨-, hsame⟩
        · rw [hsame, hself, hidem]
        · rw [hsame, hself]
      · rw [hother hhere] at hbelow
        rcases hbelow with ⟨⟨l, hl, hk⟩, hsame⟩ | ⟨hnot, hsame⟩
        · exact Or.inl ⟨⟨l, Or.inr hl, hk⟩, hsame⟩
        · refine Or.inr ⟨?_, hsame⟩
          rintro ⟨l, ⟨rfl, rfl⟩ | hl, hk⟩
          · exact hhere ⟨rfl, hk⟩
          · exact hnot ⟨l, hl, hk⟩

/-- Rewriting the entries on a path again changes nothing. -/
theorem KeepsNext.updatePath_idem (hf : L.KeepsNext f) (hidem : ∀ e, f (f e) = f e)
    (hleaf : L.leaf m lvl t v = some q) :
    L.updatePath f (L.updatePath f m lvl t v) lvl t v = L.updatePath f m lvl t v := by
  have hshape : L.SameShape m (L.updatePath f m lvl t v) := hf.sameShape_updatePath
  obtain ⟨q', hq'⟩ := hshape.exists_leaf hleaf
  funext s k
  have hagain := hf.updatePath_apply hidem hq' s k
  rw [hshape.stepsOn_eq] at hagain
  rcases hf.updatePath_apply hidem hleaf s k with ⟨hmem, hsame⟩ | ⟨hnot, -⟩
  · obtain ⟨-, hagain⟩ | ⟨hno, -⟩ := hagain
    · rw [hagain, hsame, hidem]
    · exact absurd hmem hno
  · obtain ⟨hmem, -⟩ | ⟨-, hagain⟩ := hagain
    · exact absurd hmem hnot
    · exact hagain

end Update

end Layout

end Foundations
