import Mathlib.Algebra.Order.BigOperators.Group.List
import Mathlib.Algebra.Group.Action.Defs
import Mathlib.Algebra.Order.Group.Nat
import Mathlib.Data.List.Flatten
import Umm.Foundations.RadixFree
import Umm.Foundations.RadixPath

/-!
# The entries that a walk over a radix tree visits

A walk over the tables below a root follows the entries in `p`, and goes on to the table that an
entry leads to unless `stop` holds of it.  `visits` lists the entries that it follows, in order.  A
traversal of `RadixWalk` is a loop over such a list, and walks with different `p` and `stop` are
compared by their lists.
-/

namespace Foundations

namespace Layout

variable {K E F : Type} (L : Layout K E F)

/-- The entries that a walk follows below an entry, this one included, where `sub` lists those of a
table one level below. -/
def entryVisits (p : E → Bool) (stop : ℕ → E → Bool) (sub : F → List (ℕ × E)) (lvl : ℕ) (e : E) :
    List (ℕ × E) :=
  if p e then (lvl, e) :: if stop lvl e then [] else sub (L.next lvl e) else []

/-- The entries that a walk follows in a table of the level, with their levels. -/
def visits (p : E → Bool) (stop : ℕ → E → Bool) (m : F → K → E) : ℕ → F → List (ℕ × E)
  | 0, _ => []
  | lvl + 1, t => L.keys.flatMap fun k =>
      L.entryVisits p stop (visits p stop m lvl) (lvl + 1) (m t k)

variable {L} {p : E → Bool} {stop stop' : ℕ → E → Bool} {m m' : F → K → E} {lvl : ℕ} {t : F}

/-! ## Traversals -/

/-- A traversal is a loop over the entries that it follows, if it does nothing at the tables. -/
theorem traverse_eq_foldl_visits {σ : Type} {V : Visitor E F σ} {act : σ → ℕ × E → σ} {s : σ}
    (hskip : ∀ l e s, p e = false → V.follow e l s = (false, s))
    (hleaf : ∀ l e s, p e = true → L.isLeaf l e = true → (V.follow e l s).1 = true ∧
      V.leaf e l (V.follow e l s).2 = act s (l, e))
    (hlink : ∀ l e s, p e = true → L.isLeaf l e = false → (V.follow e l s).1 = true ∧
      V.beforeRec e l (V.follow e l s).2 = act s (l, e))
    (hafterRec : ∀ l c e s, V.afterRec c e l s = s) (hbeforeRet : ∀ l t s, V.beforeRet t l s = s) :
    L.traverse (fun _ => m) V lvl t s = (L.visits p L.isLeaf m lvl t).foldl act s := by
  induction lvl generalizing t s with
  | zero => rfl
  | succ lvl ih =>
    unfold traverse
    rw [hbeforeRet, visits, List.foldl_flatMap]
    congr 1
    funext s k
    rw [entryVisits]
    cases hp : p (m t k) with
    | false => simp only [hskip _ _ _ hp, Bool.false_eq_true, if_false, List.foldl_nil]
    | true =>
      cases hisLeaf : L.isLeaf (lvl + 1) (m t k) with
      | true =>
        obtain ⟨hfollow, hact⟩ := hleaf (lvl + 1) (m t k) s hp hisLeaf
        simp only [hfollow, hact, hisLeaf, if_true, List.foldl_cons, List.foldl_nil]
      | false =>
        obtain ⟨hfollow, hact⟩ := hlink (lvl + 1) (m t k) s hp hisLeaf
        simp only [hfollow, hact, hisLeaf, hafterRec, if_true, Bool.false_eq_true, if_false,
          List.foldl_cons]
        exact ih

/-! ## Comparing walks -/

/-- The walk depends only on the pages of the table, if it follows entries in use and stops at the
leaves. -/
theorem visits_congr (h : ∀ f ∈ L.nodes m lvl t, m' f = m f) :
    L.visits L.present L.isLeaf m' lvl t = L.visits L.present L.isLeaf m lvl t := by
  induction lvl generalizing t with
  | zero => rfl
  | succ lvl ih =>
    rw [visits, visits, h t root_mem_frames]
    refine List.flatMap_congr fun k _ => ?_
    rw [entryVisits, entryVisits]
    split_ifs with hpresent hleaf
    · rfl
    · rw [ih fun f hf => h f (nodes_subset_of_child (child_eq_some.mpr
        ⟨hpresent, by simpa using hleaf, rfl⟩) hf)]
    · rfl

/-- A walk that follows only some entries meets all leaves with `q`, if it follows the entries above
them. -/
theorem filter_visits {q : E → Bool} (hpresent : ∀ e, p e = true → L.present e = true)
    (hq : ∀ v l e, L.leaf m lvl t v = some (l, e) → q e = true → L.allOn p m lvl t v = true) :
    (L.visits p L.isLeaf m lvl t).filter (fun x => L.isLeaf x.1 x.2 && q x.2) =
      (L.leaves m lvl t).filter fun x => q x.2 := by
  induction lvl generalizing t with
  | zero => rfl
  | succ lvl ih =>
    rw [visits, leaves, List.filter_flatMap, List.filter_flatMap]
    refine List.flatMap_congr fun k _ => ?_
    rcases L.entry_cases (lvl + 1) (m t k) with habsent | ⟨hcur, hleaf⟩ | ⟨c, hc⟩
    · have hskip : p (m t k) = false := by
        cases hp : p (m t k) with
        | false => rfl
        | true => exact absurd (hpresent _ hp) (by simp [habsent])
      simp [entryLeaves_of_absent habsent, entryVisits, hskip]
    · have hfollow : q (m t k) = true → p (m t k) = true := by
        intro hqk
        have hall := hq (fun _ => k) (lvl + 1) (m t k) (leaf_of_leaf hcur hleaf) hqk
        exact (Bool.and_eq_true_iff.mp hall).1
      rw [entryLeaves_of_leaf hcur hleaf]
      cases hqk : q (m t k) with
      | false => cases hp : p (m t k) <;> simp [entryVisits, hp, hleaf, hqk]
      | true => simp [entryVisits, hfollow hqk, hleaf, hqk]
    · rw [entryLeaves_of_child hc]
      -- a leaf below is a leaf of the table, on a path that begins with the key
      have hbelow : ∀ v l e, L.leaf m lvl c v = some (l, e) → q e = true →
          p (m t k) = true ∧ L.allOn p m lvl c v = true := by
        intro v l e hv hqe
        have hself : Function.update v (lvl + 1) k (lvl + 1) = k := Function.update_self ..
        have hagree : Agree lvl (Function.update v (lvl + 1) k) v :=
          fun i _ hi => Function.update_of_ne (by omega) k v
        have hall := hq (Function.update v (lvl + 1) k) l e
          (by rw [leaf_of_child (by rwa [hself]), leaf_of_agree hagree, hv]) hqe
        rwa [allOn_of_child (by rwa [hself]), hself, Bool.and_eq_true,
          allOn_of_agree hagree] at hall
      obtain ⟨-, hlink, rfl⟩ := child_eq_some.mp hc
      cases hp : p (m t k) with
      | true =>
        simpa [entryVisits, hp, hlink] using ih fun v l e hv hqe => (hbelow v l e hv hqe).2
      | false =>
        have hnone : (L.leaves m lvl (L.next (lvl + 1) (m t k))).filter (fun x => q x.2) = [] := by
          refine List.filter_eq_nil_iff.mpr fun x hx hqx => ?_
          obtain ⟨v, hv⟩ := mem_leaves.mp hx
          rw [(hbelow v x.1 x.2 hv hqx).1] at hp
          cases hp
        rw [hnone]
        simp [entryVisits, hp]

/-- A walk that stops earlier meets fewer entries. -/
theorem entryVisits_sublist {sub sub' : F → List (ℕ × E)} {l : ℕ} {e : E}
    (hstop : stop' l e = true → stop l e = true) (hsub : ∀ c, (sub c).Sublist (sub' c)) :
    (L.entryVisits p stop sub l e).Sublist (L.entryVisits p stop' sub' l e) := by
  rw [entryVisits, entryVisits]
  split_ifs with hp hs hs' hs'
  · exact List.Sublist.refl _
  · exact (List.nil_sublist _).cons_cons _
  · exact absurd (hstop hs') hs
  · exact (hsub _).cons_cons _
  · exact List.Sublist.refl _

/-- The same for the walk over a table. -/
theorem visits_sublist (hstop : ∀ l e, stop' l e = true → stop l e = true) :
    (L.visits p stop m lvl t).Sublist (L.visits p stop' m lvl t) := by
  induction lvl generalizing t with
  | zero => exact List.Sublist.refl _
  | succ lvl ih =>
    exact List.Sublist.flatMap_right _ fun k _ => entryVisits_sublist (hstop _ _) fun c => ih

/-- How many entries a table of the level has at most, with `n` keys. -/
def maxVisits (n : ℕ) : ℕ → ℕ
  | 0 => 0
  | lvl + 1 => n * (1 + maxVisits n lvl)

/-- A walk meets at most that many entries. -/
theorem length_visits_le : (L.visits p stop m lvl t).length ≤ maxVisits L.keys.length lvl := by
  induction lvl generalizing t with
  | zero => exact Nat.le_refl _
  | succ lvl ih =>
    have hentry : ∀ k, (L.entryVisits p stop (L.visits p stop m lvl) (lvl + 1) (m t k)).length ≤
        1 + maxVisits L.keys.length lvl := by
      intro k
      rw [entryVisits]
      split_ifs
      · simp
      · rw [List.length_cons, Nat.add_comm]
        exact Nat.add_le_add_left ih 1
      · exact Nat.zero_le _
    have hsum := List.sum_le_card_nsmul (L.keys.map fun k =>
      (L.entryVisits p stop (L.visits p stop m lvl) (lvl + 1) (m t k)).length) _ fun n hn => by
        obtain ⟨k, -, rfl⟩ := List.mem_map.mp hn
        exact hentry k
    rwa [List.length_map, smul_eq_mul, ← List.length_flatMap] at hsum

/-- The levels of the entries that a walk meets are those of the table. -/
theorem level_of_mem_visits {l : ℕ} {e : E} (h : (l, e) ∈ L.visits p stop m lvl t) : l ≤ lvl := by
  induction lvl generalizing t with
  | zero => cases h
  | succ lvl ih =>
    obtain ⟨k, -, hk⟩ := List.mem_flatMap.mp h
    rw [entryVisits] at hk
    split_ifs at hk with hp hs
    · rcases List.mem_cons.mp hk with heq | hk
      · exact Nat.le_of_eq (congrArg Prod.fst heq)
      · cases hk
    · rcases List.mem_cons.mp hk with heq | hk
      · exact Nat.le_of_eq (congrArg Prod.fst heq)
      · exact Nat.le_succ_of_le (ih hk)
    · cases hk

/-- Of lists that are shorter piece by piece, the concatenations agree only if the pieces do. -/
theorem flatMap_eq_of_sublist {ι α : Type} {f g : ι → List α} {ks : List ι}
    (h : ∀ k ∈ ks, (f k).Sublist (g k)) (heq : ks.flatMap f = ks.flatMap g) :
    ∀ k ∈ ks, f k = g k := by
  induction ks with
  | nil => exact fun k hk => by cases hk
  | cons k ks ih =>
    rw [List.flatMap_cons, List.flatMap_cons] at heq
    have hrest : (ks.flatMap f).Sublist (ks.flatMap g) :=
      List.Sublist.flatMap_right _ fun k hk => h k (List.mem_cons_of_mem _ hk)
    have hlength := congrArg List.length heq
    rw [List.length_append, List.length_append] at hlength
    have hhead := (h k List.mem_cons_self).length_le
    have htail := hrest.length_le
    obtain ⟨hk, htails⟩ := List.append_inj heq (by omega)
    intro k' hk'
    rcases List.mem_cons.mp hk' with rfl | hk'
    · exact hk
    · exact ih (fun k hk => h k (List.mem_cons_of_mem _ hk)) htails k' hk'

/-- A walk meets nothing in a page without entries to follow, and only there. -/
theorem visits_eq_nil_iff :
    L.visits p stop m (lvl + 1) t = [] ↔ ∀ k, p (m t k) = false := by
  rw [visits, List.flatMap_eq_nil_iff]
  refine ⟨fun h k => ?_, fun h k _ => ?_⟩
  · have hk := h k (L.mem_keys k)
    cases hp : p (m t k) with
    | false => rfl
    | true => simp [entryVisits, hp] at hk
  · simp [entryVisits, h k]

/-- The walk that goes on below the leaves meets what the walk that stops there meets, exactly if no
leaf above level 1 leads to a page with an entry in use. -/
theorem visits_isLeaf_eq_iff : L.visits L.present L.isLeaf m lvl t =
      L.visits L.present (fun l _ => l == 1) m lvl t ↔
    ∀ v l e, L.leaf m lvl t v = some (l, e) → 2 ≤ l → ∀ k, L.present (m (L.next l e) k) = false := by
  induction lvl generalizing t with
  | zero => exact ⟨fun _ v l e hv => (by cases hv), fun _ => rfl⟩
  | succ lvl ih =>
    have hstop : ∀ l (e : E), (l == 1) = true → L.isLeaf l e = true := by
      intro l e hl
      rw [beq_iff_eq.mp hl]
      exact L.isLeaf_one e
    -- the entries below a link are followed by both walks
    have hbelow : ∀ {k c}, L.child (lvl + 1) (m t k) = some c →
        (L.entryVisits L.present L.isLeaf (L.visits L.present L.isLeaf m lvl) (lvl + 1) (m t k) =
          L.entryVisits L.present (fun l _ => l == 1)
            (L.visits L.present (fun l _ => l == 1) m lvl) (lvl + 1) (m t k) ↔
        ∀ v l e, L.leaf m lvl c v = some (l, e) → 2 ≤ l →
          ∀ k, L.present (m (L.next l e) k) = false) := by
      intro k c hc
      obtain ⟨hcur, hlink, rfl⟩ := child_eq_some.mp hc
      have hone : (lvl + 1 == 1) = false := by
        cases hl : lvl + 1 == 1 with
        | false => rfl
        | true => rw [hstop _ _ hl] at hlink; cases hlink
      rw [← ih]
      simp [entryVisits, hcur, hlink, hone]
    constructor
    · intro heq v l e hv h2
      have hentry := flatMap_eq_of_sublist (fun k _ => ?_) heq (v (lvl + 1)) (L.mem_keys _)
      · rcases L.entry_cases (lvl + 1) (m t (v (lvl + 1))) with
          habsent | ⟨hcur, hleaf⟩ | ⟨c, hc⟩
        · rw [leaf_of_absent habsent] at hv
          cases hv
        · rw [leaf_of_leaf hcur hleaf] at hv
          obtain ⟨rfl, rfl⟩ := Prod.mk.inj (Option.some.inj hv)
          obtain ⟨n, rfl⟩ : ∃ n, lvl = n + 1 := ⟨lvl - 1, by omega⟩
          have hnil : L.visits L.present (fun l _ => l == 1) m (n + 1)
              (L.next (n + 2) (m t (v (n + 2)))) = [] := by
            simpa [entryVisits, hcur, hleaf] using hentry
          exact visits_eq_nil_iff.mp hnil
        · rw [leaf_of_child hc] at hv
          exact (hbelow hc).mp hentry v l e hv h2
      · exact entryVisits_sublist (hstop _ _) fun c => visits_sublist hstop
    · intro hempty
      refine List.flatMap_congr fun k _ => ?_
      rcases L.entry_cases (lvl + 1) (m t k) with habsent | ⟨hcur, hleaf⟩ | ⟨c, hc⟩
      · simp [entryVisits, habsent]
      · cases lvl with
        | zero => simp [entryVisits, hcur, hleaf]
        | succ n =>
          have hpage := hempty (fun _ => k) (n + 2) (m t k) (leaf_of_leaf hcur hleaf) (by omega)
          have hnil : L.visits L.present (fun l _ => l == 1) m (n + 1)
              (L.next (n + 2) (m t k)) = [] := visits_eq_nil_iff.mpr hpage
          simp [entryVisits, hcur, hleaf, hnil]
      · refine (hbelow hc).mpr fun v l e hv h2 => ?_
        have hself : Function.update v (lvl + 1) k (lvl + 1) = k := Function.update_self ..
        have hagree : Agree lvl (Function.update v (lvl + 1) k) v :=
          fun i _ hi => Function.update_of_ne (by omega) k v
        refine hempty (Function.update v (lvl + 1) k) l e ?_ h2
        rw [leaf_of_child (by rwa [hself]), leaf_of_agree hagree, hv]

end Layout

end Foundations
