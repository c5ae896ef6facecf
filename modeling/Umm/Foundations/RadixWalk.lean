import Mathlib.Data.Set.Insert
import Umm.Foundations.Allocator
import Umm.Foundations.RadixTree

/-!
# Walking over a radix tree

`walkLeaves` visits the leaves of a table in the order of their keys; the path to the current leaf
is kept in an array of keys that is shared by all levels, as programs that scan page tables do.
`traverse` visits the leaves and, after each table, the table itself.  Both read the pages from the
state that the visits change.

The rule of `walkLeaves` is an invariant indexed by the set of paths visited so far.  Two traversals
whose visitors match are related; `Visitor.Frees` says of a visitor that it frees what a table holds.
-/

namespace Foundations

namespace Layout

variable {K E F σ ε : Type} (L : Layout K E F)

/-! ## Visiting leaves -/

section WalkLeaves

/-- Visit the leaves of a table of the level; the second component of the state is the array of
keys. -/
def walkLeaves (page : σ → F → K → E) (visit : E → ℕ → (ℕ → K) → σ → Except ε σ) :
    ℕ → F → σ × (ℕ → K) → Except ε (σ × (ℕ → K))
  | 0, _, st => .ok st
  | lvl + 1, t, st =>
    L.keys.foldlM (fun st k =>
      let e := page st.1 t k
      if L.present e then
        let idx := Function.update st.2 (lvl + 1) k
        if L.isLeaf (lvl + 1) e then do
          let s ← visit e (lvl + 1) idx st.1
          .ok (s, idx)
        else walkLeaves page visit lvl (L.next (lvl + 1) e) (st.1, idx)
      else .ok st) st

variable {L} {page : σ → F → K → E} {visit : E → ℕ → (ℕ → K) → σ → Except ε σ} {E' : ε → Prop}
  {m : F → K → E} {top : ℕ} {r : F} {I : Set (ℕ → K) → σ → Prop} {idx₀ : ℕ → K}

/-- The rule for one table reached on the way: the paths that begin with the keys above it join the
visited ones.  They have not been visited before. -/
theorem walkLeaves_outcome_of_below
    (hpage : ∀ D s, I D s → ∀ f ∈ L.nodes m top r, page s f = m f)
    (hext : ∀ D D' s, (∀ w, L.leaf m top r w ≠ none → (w ∈ D ↔ w ∈ D')) → I D s → I D' s)
    (hvisit : ∀ D s idx l e, (∀ i, top < i → idx i = idx₀ i) → L.leaf m top r idx = some (l, e) →
      idx ∉ D → I D s →
      Outcome (visit e l idx s) (I (D ∪ {w | ∀ i, l ≤ i → i ≤ top → w i = idx i})) E')
    {lvl : ℕ} {t : F} {idx : ℕ → K} {D : Set (ℕ → K)} {s : σ} (hlvl : lvl ≤ top)
    (habove : ∀ i, top < i → idx i = idx₀ i)
    (hnodes : L.nodes m lvl t ⊆ L.nodes m top r)
    (hleaf : ∀ w, (∀ i, lvl < i → i ≤ top → w i = idx i) → L.leaf m top r w = L.leaf m lvl t w)
    (hnew : ∀ w, (∀ i, lvl < i → i ≤ top → w i = idx i) → L.leaf m top r w ≠ none → w ∉ D)
    (hI : I D s) :
    Outcome (L.walkLeaves page visit lvl t (s, idx))
      (fun st => I (D ∪ {w | ∀ i, lvl < i → i ≤ top → w i = idx i}) st.1 ∧
        ∀ i, lvl < i → st.2 i = idx i) E' := by
  induction lvl generalizing t idx D s with
  | zero =>
    refine ⟨hext D _ s (fun w hw => ⟨Or.inl, ?_⟩) hI, fun _ _ => rfl⟩
    rintro (hD | hpath)
    · exact hD
    · exact absurd (hleaf w hpath) hw
  | succ lvl ih =>
    -- the paths below the keys of the page that have been scanned
    let Done (done : List K) : Set (ℕ → K) :=
      {w | (∀ i, lvl + 1 < i → i ≤ top → w i = idx i) ∧ w (lvl + 1) ∈ done}
    have hdone : ∀ {done k} {idx' : ℕ → K}, (∀ i, lvl + 1 < i → idx' i = idx i) →
        idx' (lvl + 1) = k → D ∪ Done done ∪ {w | ∀ i, lvl < i → i ≤ top → w i = idx' i} =
          D ∪ Done (done ++ [k]) := by
      intro done k idx' hidx' hk
      rw [Set.union_assoc]
      congr 1
      ext w
      simp only [Done, Set.mem_union, Set.mem_ofPred_eq, List.mem_append, List.mem_singleton]
      constructor
      · rintro (⟨habove, hmem⟩ | hpath)
        · exact ⟨habove, Or.inl hmem⟩
        · refine ⟨fun i h1 h2 => (hpath i (by omega) h2).trans (hidx' i h1), Or.inr ?_⟩
          exact (hpath (lvl + 1) (by omega) hlvl).trans hk
      · rintro ⟨habove, hmem | hmem⟩
        · exact Or.inl ⟨habove, hmem⟩
        · refine Or.inr fun i h1 h2 => ?_
          rcases Nat.lt_or_eq_of_le h1 with hlt | rfl
          · exact (habove i hlt h2).trans (hidx' i hlt).symm
          · exact hmem.trans hk.symm
    refine (outcome_foldlM (Q := fun done st => I (D ∪ Done done) st.1 ∧
      ∀ i, lvl + 1 < i → st.2 i = idx i) L.keys (fun done k st hprefix hst => ?_) ?_).mono
      (fun st hst => ⟨?_, ?_⟩) fun _ h => h
    · obtain ⟨hst, hidx⟩ := hst
      have hk : k ∉ done := by
        have hnodup := L.nodup_keys.sublist hprefix.sublist
        exact fun hmem => (List.nodup_append.mp hnodup).2.2 k hmem k List.mem_cons_self rfl
      have hentry : page st.1 t k = m t k := by
        rw [hpage _ _ hst t (hnodes root_mem_frames)]
      have hidx' : ∀ i, lvl + 1 < i → Function.update st.2 (lvl + 1) k i = idx i := by
        intro i hi
        rw [Function.update_of_ne (by omega), hidx i hi]
      have htop : ∀ i, top < i → Function.update st.2 (lvl + 1) k i = idx₀ i :=
        fun i hi => (hidx' i (by omega)).trans (habove i hi)
      have hself : Function.update st.2 (lvl + 1) k (lvl + 1) = k := Function.update_self ..
      have hroot : ∀ w, (∀ i, lvl < i → i ≤ top → w i = Function.update st.2 (lvl + 1) k i) →
          L.leaf m top r w = L.leaf m (lvl + 1) t w ∧ w (lvl + 1) = k := by
        intro w hw
        refine ⟨hleaf w fun i h1 h2 => (hw i (by omega) h2).trans (hidx' i h1), ?_⟩
        exact (hw (lvl + 1) (by omega) hlvl).trans hself
      have hunvisited : ∀ w, (∀ i, lvl < i → i ≤ top → w i = Function.update st.2 (lvl + 1) k i) →
          L.leaf m top r w ≠ none → w ∉ D ∪ Done done := by
        rintro w hw hwleaf (hD | hdone)
        · exact hnew w (fun i h1 h2 => (hw i (by omega) h2).trans (hidx' i h1)) hwleaf hD
        · exact hk ((hroot w hw).2 ▸ hdone.2)
      simp only [hentry]
      rcases L.entry_cases (lvl + 1) (m t k) with habsent | ⟨hpresent, hisLeaf⟩ | ⟨c, hc⟩
      · rw [habsent]
        refine ⟨hext _ _ _ (fun w hw => ?_) hst, hidx⟩
        rw [← hdone hidx' hself]
        refine ⟨Or.inl, ?_⟩
        rintro (hw' | hw')
        · exact hw'
        · obtain ⟨hroot, hk⟩ := hroot w hw'
          rw [hroot, leaf_of_absent (by rw [hk, habsent])] at hw
          exact absurd rfl hw
      · rw [hpresent, hisLeaf]
        simp only [if_true]
        have hvisited : L.leaf m top r (Function.update st.2 (lvl + 1) k) =
            some (lvl + 1, m t k) := by
          rw [(hroot _ fun _ _ _ => rfl).1, leaf_of_leaf (by rwa [hself]) (by rwa [hself]), hself]
        have hself' : Function.update st.2 (lvl + 1) k ∉ D ∪ Done done := by
          refine hunvisited _ (fun _ _ _ => rfl) ?_
          rw [hvisited]
          exact Option.some_ne_none _
        refine outcome_bind.mpr ((hvisit _ _ _ _ _ htop hvisited hself' hst).mono (fun s hs => ?_)
          fun _ h => h)
        exact ⟨hdone hidx' hself ▸ hs, hidx'⟩
      · obtain ⟨hpresent, hisLeaf, hnext⟩ := child_eq_some.mp hc
        rw [hpresent, hisLeaf, hnext]
        simp only [if_true, Bool.false_eq_true, if_false]
        refine (ih (by omega) htop ((nodes_subset_of_child hc).trans hnodes) (fun w hw => ?_)
          hunvisited hst).mono
          (fun st' hst' => ⟨hdone hidx' hself ▸ hst'.1, fun i hi => ?_⟩) fun _ h => h
        · obtain ⟨hroot, hk⟩ := hroot w hw
          rw [hroot, leaf_of_child (by rwa [hk])]
        · exact (hst'.2 i (by omega)).trans (hidx' i hi)
    · exact ⟨hext _ _ _ (fun w _ => by simp [Done]) hI, fun _ _ => rfl⟩
    · refine hext _ _ _ (fun w _ => ?_) hst.1
      simp only [Done, Set.mem_union, Set.mem_ofPred_eq, L.mem_keys, and_true, Nat.lt_iff_add_one_le]
    · exact hst.2

/-- The rule of the walk over a whole table: a visit at a path, which has not been visited before, adds to
the visited paths those that end at the same leaf. -/
theorem walkLeaves_outcome
    (hpage : ∀ D s, I D s → ∀ f ∈ L.nodes m top r, page s f = m f)
    (hext : ∀ D D' s, (∀ w, L.leaf m top r w ≠ none → (w ∈ D ↔ w ∈ D')) → I D s → I D' s)
    (hvisit : ∀ D s idx l e, (∀ i, top < i → idx i = idx₀ i) → L.leaf m top r idx = some (l, e) →
      idx ∉ D → I D s →
      Outcome (visit e l idx s) (I (D ∪ {w | ∀ i, l ≤ i → i ≤ top → w i = idx i})) E')
    {s : σ} (hI : I ∅ s) :
    Outcome (L.walkLeaves page visit top r (s, idx₀)) (fun st => I Set.univ st.1) E' := by
  refine (walkLeaves_outcome_of_below hpage hext hvisit (Nat.le_refl top)
    (fun _ _ => rfl) Set.Subset.rfl (fun _ _ => rfl) (fun w _ _ => Set.notMem_empty w) hI).mono
    (fun st hst => ?_) fun _ h => h
  refine hext _ _ _ (fun w _ => ⟨fun _ => Set.mem_univ w, fun _ => Or.inr ?_⟩) hst.1
  exact fun i h1 h2 => absurd h1 (by omega)

end WalkLeaves

/-! ## Visiting tables -/

/-- What a traversal does on its way. -/
structure Visitor (E F σ : Type) where
  /-- Whether an entry of the level is followed. -/
  follow : E → ℕ → σ → Bool × σ
  /-- Before the table an entry links to is traversed. -/
  beforeRec : E → ℕ → σ → σ
  /-- After the table an entry links to has been traversed. -/
  afterRec : F → E → ℕ → σ → σ
  /-- At a leaf. -/
  leaf : E → ℕ → σ → σ
  /-- After the entries of a table. -/
  beforeRet : F → ℕ → σ → σ

/-- Visit the entries of a table of the level, and then the table. -/
def traverse (page : σ → F → K → E) (V : Visitor E F σ) : ℕ → F → σ → σ
  | 0, _, s => s
  | lvl + 1, t, s =>
    V.beforeRet t (lvl + 1) <| L.keys.foldl (fun s k =>
      let e := page s t k
      let (followed, s) := V.follow e (lvl + 1) s
      if followed then
        if L.isLeaf (lvl + 1) e then V.leaf e (lvl + 1) s
        else
          let c := L.next (lvl + 1) e
          V.afterRec c e (lvl + 1) (traverse page V lvl c (V.beforeRec e (lvl + 1) s))
      else s) s

section Match

variable {L} {τ : Type} {P : ℕ → E → Prop} {m : F → K → E} {V : Visitor E F σ} {V' : Visitor E F τ}
  {R : σ → τ → Prop}

/-- Two visitors follow exactly the entries in use, and do the same to states related by `R`, at the
entries in `P`. -/
structure Visitor.Matches (L : Layout K E F) (P : ℕ → E → Prop) (V : Visitor E F σ)
    (V' : Visitor E F τ) (R : σ → τ → Prop) : Prop where
  /-- Entries in use are followed, the others are not. -/
  follow : ∀ l e s s', (L.present e = true → P l e) → R s s' →
    (V.follow e l s).1 = L.present e ∧ (V'.follow e l s').1 = L.present e ∧
      R (V.follow e l s).2 (V'.follow e l s').2
  /-- Before a table. -/
  beforeRec : ∀ l e s s', R s s' → R (V.beforeRec e l s) (V'.beforeRec e l s')
  /-- After a table has been traversed. -/
  afterRec : ∀ l c e s s', R s s' → R (V.afterRec c e l s) (V'.afterRec c e l s')
  /-- At a leaf. -/
  leaf : ∀ l e s s', P l e → L.isLeaf l e = true → R s s' → R (V.leaf e l s) (V'.leaf e l s')
  /-- After the entries of a table. -/
  beforeRet : ∀ l t s s', R s s' → R (V.beforeRet t l s) (V'.beforeRet t l s')

/-- Visitors that match traverse a table in the same way. -/
theorem traverse_rel (hV : Visitor.Matches L P V V' R) {page : σ → F → K → E}
    {page' : τ → F → K → E} {lvl : ℕ} {t : F} {s : σ} {s' : τ} (hentries : L.Entries P m lvl t)
    (hpage : ∀ s s', R s s' → ∀ f ∈ L.nodes m lvl t, page s f = m f ∧ page' s' f = m f)
    (hR : R s s') : R (L.traverse page V lvl t s) (L.traverse page' V' lvl t s') := by
  induction lvl generalizing t s s' with
  | zero => exact hR
  | succ lvl ih =>
    unfold traverse
    refine hV.beforeRet _ _ _ _ (List.foldl_rel hR fun k _ s s' hR => ?_)
    obtain ⟨hpage₁, hpage₂⟩ := hpage s s' hR t root_mem_frames
    obtain ⟨hfollow₁, hfollow₂, hR⟩ := hV.follow (lvl + 1) (m t k) s s'
      (fun hpresent => (hentries k hpresent).1) hR
    simp only [hpage₁, hpage₂, hfollow₁, hfollow₂]
    rcases L.entry_cases (lvl + 1) (m t k) with habsent | ⟨hpresent, hleaf⟩ | ⟨c, hc⟩
    · simpa [habsent] using hR
    · simp only [hpresent, hleaf, if_true]
      exact hV.leaf _ _ _ _ (hentries k hpresent).1 hleaf hR
    · obtain ⟨hpresent, hleaf, rfl⟩ := child_eq_some.mp hc
      simp only [hpresent, hleaf, if_true, Bool.false_eq_true, if_false]
      refine hV.afterRec _ _ _ _ _ (ih ((hentries k hpresent).2 _ hc) (fun s s' hR f hf => ?_)
        (hV.beforeRec _ _ _ _ hR))
      exact hpage s s' hR f (nodes_subset_of_child hc hf)

end Match

section Free

variable {A : Allocator F}

/-- The visitor frees every table, and the frames of the leaves that `own` accepts; it follows the
entries in `P`. -/
structure Visitor.Frees (V : Visitor E F (Heap A (K → E))) (own : E → Bool)
    (P : ℕ → E → Prop) : Prop where
  /-- Entries in use and in order are followed. -/
  follow : ∀ l e h, L.present e = true → P l e → V.follow e l h = (true, h)
  /-- Absent entries are not followed. -/
  not_follow : ∀ l e h, L.present e = false → V.follow e l h = (false, h)
  /-- Nothing is done before a table. -/
  beforeRec : ∀ l e h, V.beforeRec e l h = h
  /-- Nothing is done after a table has been traversed. -/
  afterRec : ∀ l c e h, V.afterRec c e l h = h
  /-- The frames of the owned leaves are freed. -/
  leaf : ∀ l e h, P l e → L.isLeaf l e = true →
    V.leaf e l h = if own e = true then h.free (L.next l e) else h
  /-- The tables are freed. -/
  beforeRet : ∀ l t h, V.beforeRet t l h = h.free t

end Free

end Layout

end Foundations
