import Umm.Foundations.RadixTree

/-!
# Updating entries

`updateLeaf` rewrites the leaf at which the walk along a path ends, as a processor does that sets
bits of an entry it translates through.  When the bits say nothing of where the entry leads, the
table holds what it held, and only the paths that end at this leaf see the change.

`updatePath` rewrites every entry on the way.
-/

namespace Foundations

namespace Layout

variable {K E F : Type} (L : Layout K E F)

/-- Rewriting an entry says nothing of where it leads. -/
structure KeepsNext (f : E → E) : Prop where
  /-- The entry stays in use, or not. -/
  present : ∀ e, L.present (f e) = L.present e
  /-- It stays a leaf, or not. -/
  isLeaf : ∀ l e, L.isLeaf l (f e) = L.isLeaf l e
  /-- It leads to the same frame. -/
  next : ∀ l e, L.next l (f e) = L.next l e

variable {L} {own : E → Bool} {P : ℕ → E → Prop} {f : E → E} {m : F → K → E} {lvl l : ℕ} {t : F}
  {v : ℕ → K} {e : E}

theorem KeepsNext.child (hf : L.KeepsNext f) : L.child l (f e) = L.child l e := by
  simp [Layout.child, hf.present, hf.isLeaf, hf.next]

theorem KeepsNext.entryFrames (hf : L.KeepsNext f) {own : E → Bool}
    (hown : ∀ e, own (f e) = own e) (sub : F → Set F) :
    L.entryFrames own sub l (f e) = L.entryFrames own sub l e := by
  ext g
  simp [Layout.entryFrames, hf.present, hf.isLeaf, hf.next, hown]

section Update

variable [DecidableEq K] [DecidableEq F]

/-- Rewrite the leaf at which the walk along a path ends. -/
def updateLeaf (L : Layout K E F) (f : E → E) (m : F → K → E) (lvl : ℕ) (t : F) (v : ℕ → K) :
    F → K → E :=
  match L.locate m lvl t v with
  | none => m
  | some (l, s) => Function.update m s (Function.update (m s) (v l) (f (m s (v l))))

/-- A leaf that is as it would be rewritten stays. -/
theorem updateLeaf_of_fixed {L : Layout K E F} {f : E → E} {m : F → K → E} {lvl l : ℕ} {t : F}
    {v : ℕ → K} {e : E} (hleaf : L.leaf m lvl t v = some (l, e)) (hf : f e = e) :
    L.updateLeaf f m lvl t v = m := by
  rw [leaf, Option.map_eq_some_iff] at hleaf
  obtain ⟨⟨l', s⟩, hlocate, hentry⟩ := hleaf
  obtain ⟨rfl, rfl⟩ := Prod.mk.inj hentry
  rw [updateLeaf, hlocate]
  simp only [hf, Function.update_eq_self]

/-- What rewriting the leaf `e` of level `l` at the path `v` does. -/
structure LeafUpdated (L : Layout K E F) (own : E → Bool) (P : ℕ → E → Prop) (f : E → E)
    (m : F → K → E) (lvl : ℕ) (t : F) (v : ℕ → K) (l : ℕ) (e : E) (m' : F → K → E) : Prop where
  /-- The table holds what it held. -/
  frames_eq : ∀ own' : E → Bool, (∀ e, own' (f e) = own' e) →
    L.frames own' m' lvl t = L.frames own' m lvl t
  /-- It holds each of its frames in one way only. -/
  separate : L.Separate own m' lvl t
  /-- The entries are in order. -/
  entries : L.Entries P m' lvl t
  /-- Only a page of the table has been written. -/
  mem_eq : ∀ g ∉ L.nodes m lvl t, m' g = m g
  /-- The paths that end at the leaf see the change, the others do not. -/
  leaf : ∀ w, (∀ i, l ≤ i → i ≤ lvl → w i = v i) ∧ L.leaf m' lvl t w = some (l, f e) ∨
    ¬ (∀ i, l ≤ i → i ≤ lvl → w i = v i) ∧ L.leaf m' lvl t w = L.leaf m lvl t w

theorem updateLeaf_succ_of_child {c : F} (hc : L.child (lvl + 1) (m t (v (lvl + 1))) = some c) :
    L.updateLeaf f m (lvl + 1) t v = L.updateLeaf f m lvl c v := by
  obtain ⟨hpresent, hleaf, rfl⟩ := child_eq_some.mp hc
  simp [updateLeaf, locate, hpresent, hleaf]

/-- The leaf is an entry of the table itself. -/
theorem leafUpdated_of_leaf (hf : L.KeepsNext f) (hown : ∀ e, own (f e) = own e)
    (hP : ∀ l e, P l e → P l (f e)) (hsep : L.Separate own m (lvl + 1) t)
    (hentries : L.Entries P m (lvl + 1) t) (hpresent : L.present (m t (v (lvl + 1))) = true)
    (hisLeaf : L.isLeaf (lvl + 1) (m t (v (lvl + 1))) = true) :
    LeafUpdated L own P f m (lvl + 1) t v (lvl + 1) (m t (v (lvl + 1)))
      (L.updateLeaf f m (lvl + 1) t v) := by
  have hm' : L.updateLeaf f m (lvl + 1) t v = Function.update m t
      (Function.update (m t) (v (lvl + 1)) (f (m t (v (lvl + 1))))) := by
    simp [updateLeaf, locate, hpresent, hisLeaf]
  rw [hm']
  generalize hk : v (lvl + 1) = k at *
  have hgraft : Grafts L m (Function.update m t (Function.update (m t) k (f (m t k)))) lvl t k
      (f (m t k)) := by
    refine ⟨Function.update_self .., fun k' _ c hc g hg => Function.update_of_ne ?_ ..⟩
    have hheld : g ∈ L.entryFrames own (L.frames own m lvl) (lvl + 1) (m t k') :=
      mem_entryFrames_of_nodes hc hg
    exact fun heq => hsep.1 k' (heq ▸ hheld)
  have hnochild : ∀ c, L.child (lvl + 1) (f (m t k)) ≠ some c := by
    intro c hc
    rw [hf.child] at hc
    rw [(child_eq_some.mp hc).2.1] at hisLeaf
    cases hisLeaf
  have hsame : ∀ own', (∀ e, own' (f e) = own' e) → ∀ sub sub',
      L.entryFrames own' sub (lvl + 1) (f (m t k)) =
        L.entryFrames own' sub' (lvl + 1) (m t k) := by
    intro own' hown' sub sub'
    rw [hf.entryFrames hown']
    ext g
    rw [mem_entryFrames_of_leaf hpresent hisLeaf, mem_entryFrames_of_leaf hpresent hisLeaf]
  refine ⟨fun own' hown' => hgraft.frames_eq (hsame own' hown' _ _),
    hgraft.separate_of_eq (hsame own hown _ _) hsep fun c hc => absurd hc (hnochild c),
    hgraft.entries hentries (fun _ => hP _ _ (hentries k hpresent).1)
      fun c hc => absurd hc (hnochild c), fun g hg => ?_, fun w => ?_⟩
  · rw [Function.update_of_ne]
    rintro rfl
    exact hg root_mem_frames
  have hself := hgraft.entry_self
  by_cases hw : w (lvl + 1) = k
  · refine Or.inl ⟨fun i h1 h2 => ?_, ?_⟩
    · obtain rfl : i = lvl + 1 := Nat.le_antisymm h2 h1
      rw [hw, hk]
    · rw [leaf_of_leaf, hw, hself]
      · rw [hw, hself, hf.present, hpresent]
      · rw [hw, hself, hf.isLeaf, hisLeaf]
  · exact Or.inr ⟨fun hpath => hw ((hpath _ (Nat.le_refl _) (Nat.le_refl _)).trans hk),
      hgraft.leaf_of_ne hw⟩

omit [DecidableEq F] in
/-- The leaf is in the table that the entry leads to. -/
theorem LeafUpdated.of_child {c : F} {m' : F → K → E} (hown : ∀ e, own (f e) = own e)
    (hsep : L.Separate own m (lvl + 1) t) (hentries : L.Entries P m (lvl + 1) t)
    (hc : L.child (lvl + 1) (m t (v (lvl + 1))) = some c) (hl : l ≤ lvl)
    (hbelow : LeafUpdated L own P f m lvl c v l e m') :
    LeafUpdated L own P f m (lvl + 1) t v l e m' := by
  generalize hk : v (lvl + 1) = k at *
  have hgraft : Grafts L m m' lvl t k (m t k) := by
    refine ⟨?_, fun k' hk' c' hc' g hg => hbelow.mem_eq g fun hg' => ?_⟩
    · rw [Function.update_eq_self]
      exact hbelow.mem_eq t fun hmem => hsep.1 k (mem_entryFrames_of_nodes hc hmem)
    · exact Set.disjoint_left.mp (hsep.2.1 k' k hk') (mem_entryFrames_of_nodes hc' hg)
        (mem_entryFrames_of_nodes hc hg')
  have hsame : ∀ own', (∀ e, own' (f e) = own' e) →
      L.entryFrames own' (L.frames own' m' lvl) (lvl + 1) (m t k) =
        L.entryFrames own' (L.frames own' m lvl) (lvl + 1) (m t k) := by
    intro own' hown'
    rw [entryFrames_of_child hc, entryFrames_of_child hc, hbelow.frames_eq own' hown']
  have hentry := hgraft.entry_self
  refine ⟨fun own' hown' => hgraft.frames_eq (hsame own' hown'),
    hgraft.separate_of_eq (hsame own hown) hsep fun c' hc' => ?_,
    hgraft.entries hentries (fun hpresent => (hentries k hpresent).1) fun c' hc' => ?_,
    fun g hg => hbelow.mem_eq g fun hmem => hg (nodes_subset_of_child hc hmem), fun w => ?_⟩
  · obtain rfl := Option.some.inj (hc.symm.trans hc')
    exact hbelow.separate
  · obtain rfl := Option.some.inj (hc.symm.trans hc')
    exact hbelow.entries
  · by_cases hw : w (lvl + 1) = k
    · rw [leaf_of_child (by rwa [hw, hentry]), leaf_of_child (m := m) (by rwa [hw])]
      have hpath : (∀ i, l ≤ i → i ≤ lvl → w i = v i) ↔
          ∀ i, l ≤ i → i ≤ lvl + 1 → w i = v i := by
        refine ⟨fun hpath i h1 h2 => ?_, fun hpath i h1 h2 => hpath i h1 (by omega)⟩
        rcases Nat.lt_or_eq_of_le h2 with hlt | rfl
        · exact hpath i h1 (by omega)
        · rw [hw, hk]
      rw [← hpath]
      exact hbelow.leaf w
    · exact Or.inr ⟨fun hpath => hw ((hpath _ (by omega) (Nat.le_refl _)).trans hk),
        hgraft.leaf_of_ne hw⟩

/-- Rewriting a leaf, bits aside that say where it leads, keeps what the table holds. -/
theorem leafUpdated (hf : L.KeepsNext f) (hown : ∀ e, own (f e) = own e)
    (hP : ∀ l e, P l e → P l (f e)) (hsep : L.Separate own m lvl t)
    (hentries : L.Entries P m lvl t) (hleaf : L.leaf m lvl t v = some (l, e)) :
    LeafUpdated L own P f m lvl t v l e (L.updateLeaf f m lvl t v) := by
  induction lvl generalizing t with
  | zero => cases hleaf
  | succ lvl ih =>
    rcases L.entry_cases (lvl + 1) (m t (v (lvl + 1))) with
      habsent | ⟨hpresent, hisLeaf⟩ | ⟨c, hc⟩
    · rw [leaf_of_absent habsent] at hleaf
      cases hleaf
    · rw [leaf_of_leaf hpresent hisLeaf] at hleaf
      obtain ⟨rfl, rfl⟩ := Prod.mk.inj (Option.some.inj hleaf)
      exact leafUpdated_of_leaf hf hown hP hsep hentries hpresent hisLeaf
    · rw [leaf_of_child hc] at hleaf
      rw [updateLeaf_succ_of_child hc]
      obtain ⟨-, hl, -, -⟩ := leaf_spec hleaf
      exact (ih (hsep.2.2 _ c hc) ((hentries _ (child_eq_some.mp hc).1).2 c hc) hleaf).of_child hown
        hsep hentries hc hl

/-! ## Updating a path -/

/-- Rewrite the entries that the walk along a path goes through. -/
def updatePath (L : Layout K E F) (f : E → E) (m : F → K → E) : ℕ → F → (ℕ → K) → F → K → E
  | 0, _, _ => m
  | lvl + 1, t, v =>
    let e := m t (v (lvl + 1))
    if L.present e then
      let m := Function.update m t (Function.update (m t) (v (lvl + 1)) (f e))
      if L.isLeaf (lvl + 1) e then m else updatePath L f m lvl (L.next (lvl + 1) e) v
    else m

/-- Nothing changes where the entries are as they would be rewritten. -/
theorem updatePath_eq (hf : ∀ l e, P l e → f e = e) (hentries : L.Entries P m lvl t) :
    L.updatePath f m lvl t v = m := by
  induction lvl generalizing t with
  | zero => rfl
  | succ lvl ih =>
    unfold updatePath
    cases hpresent : L.present (m t (v (lvl + 1))) with
    | false => simp [hpresent]
    | true =>
      obtain ⟨hP, hchild⟩ := hentries _ hpresent
      simp only [hpresent, hf _ _ hP, Function.update_eq_self, if_true]
      split_ifs with hleaf
      · rfl
      · exact ih (hchild _ (child_eq_some.mpr ⟨hpresent, by simpa using hleaf, rfl⟩))

end Update

end Layout

end Foundations
