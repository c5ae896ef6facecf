import Umm.Foundations.RadixSteps
import Umm.Foundations.RadixWalk

/-!
# What a walk knows at a leaf

`walkLeavesAt` is `walkLeaves` with visits that are told which entry they are at.  Its rule says that,
at every visit, the walk along the keys in the array ends at the entry that is visited: the entries
of the array that earlier siblings have left there are overwritten before a leaf is reached.

`logVisit` keeps a log of the visits, also of the one that fails.  Forgetting the log gives the walk
without it.
-/

namespace Foundations

namespace Layout

variable {K E F σ ε : Type} (L : Layout K E F)

/-- `walkLeaves`, where a visit is told the table and the key of the leaf. -/
def walkLeavesAt (page : σ → F → K → E) (visit : F × K → ℕ → (ℕ → K) → σ → Except ε σ) :
    ℕ → F → σ × (ℕ → K) → Except ε (σ × (ℕ → K))
  | 0, _, st => .ok st
  | lvl + 1, t, st =>
    L.keys.foldlM (fun st k =>
      let e := page st.1 t k
      if L.present e then
        let idx := Function.update st.2 (lvl + 1) k
        if L.isLeaf (lvl + 1) e then do
          let s ← visit (t, k) (lvl + 1) idx st.1
          .ok (s, idx)
        else walkLeavesAt page visit lvl (L.next (lvl + 1) e) (st.1, idx)
      else .ok st) st

variable {L} {page : σ → F → K → E} {m : F → K → E} {lvl top : ℕ} {t r : F}

/-- `walkLeaves` is the walk whose visits read the entry. -/
theorem walkLeaves_eq_walkLeavesAt {visit : E → ℕ → (ℕ → K) → σ → Except ε σ} :
    L.walkLeaves page visit lvl t =
      L.walkLeavesAt page (fun p l idx s => visit (page s p.1 p.2) l idx s) lvl t := by
  induction lvl generalizing t with
  | zero => rfl
  | succ lvl ih =>
    funext st
    unfold walkLeaves walkLeavesAt
    simp only [ih]

/-! ## The rule -/

section Rule

variable {visit : F × K → ℕ → (ℕ → K) → σ → Except ε σ} {I : σ → Prop} {E' : ε → Prop}
  {idx₀ : ℕ → K}

/-- The rule for one table reached on the way. -/
theorem walkLeavesAt_outcome_of_below (hpage : ∀ s, I s → ∀ f ∈ L.nodes m top r, page s f = m f)
    (hvisit : ∀ s idx l f, (∀ i, top < i → idx i = idx₀ i) → L.locate m top r idx = some (l, f) →
      I s → Outcome (visit (f, idx l) l idx s) I E')
    {idx : ℕ → K} {s : σ} (hlvl : lvl ≤ top) (habove : ∀ i, top < i → idx i = idx₀ i)
    (hnodes : L.nodes m lvl t ⊆ L.nodes m top r)
    (hlocate : ∀ w, (∀ i, lvl < i → i ≤ top → w i = idx i) →
      L.locate m top r w = L.locate m lvl t w) (hI : I s) :
    Outcome (L.walkLeavesAt page visit lvl t (s, idx))
      (fun st => I st.1 ∧ ∀ i, lvl < i → st.2 i = idx i) E' := by
  induction lvl generalizing t idx s with
  | zero => exact ⟨hI, fun _ _ => rfl⟩
  | succ lvl ih =>
    -- the keys above this level stay as they are through the loop
    refine outcome_foldlM
      (Q := fun _ (st : σ × (ℕ → K)) => I st.1 ∧ ∀ i, lvl + 1 < i → st.2 i = idx i) L.keys
      (fun done k st _ hst => ?_) ⟨hI, fun _ _ => rfl⟩
    obtain ⟨hst, hidx⟩ := hst
    have hentry : page st.1 t k = m t k := by
      rw [hpage _ hst t (hnodes root_mem_frames)]
    have hidx' : ∀ i, lvl + 1 < i → Function.update st.2 (lvl + 1) k i = idx i := by
      intro i hi
      rw [Function.update_of_ne (by omega), hidx i hi]
    have htop : ∀ i, top < i → Function.update st.2 (lvl + 1) k i = idx₀ i :=
      fun i hi => (hidx' i (by omega)).trans (habove i hi)
    have hself : Function.update st.2 (lvl + 1) k (lvl + 1) = k := Function.update_self ..
    have hroot : ∀ w, (∀ i, lvl < i → i ≤ top → w i = Function.update st.2 (lvl + 1) k i) →
        L.locate m top r w = L.locate m (lvl + 1) t w ∧ w (lvl + 1) = k := by
      intro w hw
      refine ⟨hlocate w fun i h1 h2 => (hw i (by omega) h2).trans (hidx' i h1), ?_⟩
      exact (hw (lvl + 1) (by omega) hlvl).trans hself
    simp only [hentry]
    rcases L.entry_cases (lvl + 1) (m t k) with habsent | ⟨hpresent, hisLeaf⟩ | ⟨c, hc⟩
    · rw [habsent]
      exact ⟨hst, hidx⟩
    · rw [hpresent, hisLeaf]
      simp only [if_true]
      have hvisited : L.locate m top r (Function.update st.2 (lvl + 1) k) = some (lvl + 1, t) := by
        rw [(hroot _ fun _ _ _ => rfl).1, locate, hself, if_pos hpresent, if_pos hisLeaf]
      have hstep := hvisit _ _ _ _ htop hvisited hst
      rw [hself] at hstep
      exact outcome_bind.mpr (hstep.mono (fun s hs => ⟨hs, hidx'⟩) fun _ h => h)
    · obtain ⟨hpresent, hisLeaf, hnext⟩ := child_eq_some.mp hc
      rw [hpresent, hisLeaf, hnext]
      simp only [if_true, Bool.false_eq_true, if_false]
      refine (ih (by omega) htop ((nodes_subset_of_child hc).trans hnodes) (fun w hw => ?_) hst).mono
        (fun st' hst' => ⟨hst'.1, fun i hi => (hst'.2 i (by omega)).trans (hidx' i hi)⟩)
        fun _ h => h
      obtain ⟨hroot, hk⟩ := hroot w hw
      rw [hroot, locate, hk, hpresent, hisLeaf, hnext, if_pos rfl, if_neg Bool.false_ne_true]

/-- The rule of the walk over a whole table: at a visit, the keys in the array lead to the leaf. -/
theorem walkLeavesAt_outcome (hpage : ∀ s, I s → ∀ f ∈ L.nodes m top r, page s f = m f)
    (hvisit : ∀ s idx l f, (∀ i, top < i → idx i = idx₀ i) → L.locate m top r idx = some (l, f) →
      I s → Outcome (visit (f, idx l) l idx s) I E') {s : σ} (hI : I s) :
    Outcome (L.walkLeavesAt page visit top r (s, idx₀)) (fun st => I st.1) E' :=
  (walkLeavesAt_outcome_of_below hpage hvisit (Nat.le_refl top) (fun _ _ => rfl)
    Set.Subset.rfl (fun _ _ => rfl) hI).mono (fun _ hst => hst.1) fun _ h => h

end Rule

/-! ## The log -/

/-- A log of visits: the table and the key of each leaf, with the array at the time. -/
abbrev VisitLog (F K : Type) := List ((F × K) × (ℕ → K))

/-- A visit that is added to the log, whether it fails or not. -/
def logVisit (visit : F × K → ℕ → (ℕ → K) → σ → Except ε σ) (p : F × K) (l : ℕ) (idx : ℕ → K)
    (s : σ × VisitLog F K) : Except (ε × VisitLog F K) (σ × VisitLog F K) :=
  match visit p l idx s.1 with
  | .ok s' => .ok (s', s.2 ++ [(p, idx)])
  | .error e => .error (e, s.2 ++ [(p, idx)])

/-- A visit does what it does, and is the last one of the log. -/
theorem logVisit_outcome {visit : F × K → ℕ → (ℕ → K) → σ → Except ε σ} {Q : σ → Prop}
    {E' : ε → Prop} {p : F × K} {l : ℕ} {idx : ℕ → K} {s : σ × VisitLog F K}
    (h : Outcome (visit p l idx s.1) Q E') :
    Outcome (logVisit visit p l idx s) (fun s' => Q s'.1 ∧ s'.2 = s.2 ++ [(p, idx)])
      (fun e => E' e.1 ∧ e.2 = s.2 ++ [(p, idx)]) := by
  unfold logVisit
  cases hvisit : visit p l idx s.1 with
  | ok s' => exact ⟨h.of_eq_ok hvisit, rfl⟩
  | error e => exact ⟨h.of_eq_error hvisit, rfl⟩

/-- A walk without its log. -/
def eraseLog : Except (ε × VisitLog F K) ((σ × VisitLog F K) × (ℕ → K)) → Except ε (σ × (ℕ → K))
  | .ok st => .ok (st.1.1, st.2)
  | .error e => .error e.1

/-- The log of a walk. -/
def logOf : Except (ε × VisitLog F K) ((σ × VisitLog F K) × (ℕ → K)) → VisitLog F K
  | .ok st => st.1.2
  | .error e => e.2

/-- A loop whose steps do the same up to the log. -/
theorem eraseLog_foldlM {κ : Type} {f : σ × (ℕ → K) → κ → Except ε (σ × (ℕ → K))}
    {g : (σ × VisitLog F K) × (ℕ → K) → κ → Except (ε × VisitLog F K) ((σ × VisitLog F K) × (ℕ → K))}
    (hstep : ∀ st k, eraseLog (g st k) = f (st.1.1, st.2) k) (ks : List κ)
    (st : (σ × VisitLog F K) × (ℕ → K)) :
    eraseLog (ks.foldlM g st) = ks.foldlM f (st.1.1, st.2) := by
  induction ks generalizing st with
  | nil => rfl
  | cons k ks ih =>
    rw [List.foldlM_cons, List.foldlM_cons, ← hstep st k]
    cases g st k with
    | ok st' => exact ih st'
    | error e => rfl

/-- Forgetting the log gives the walk. -/
theorem eraseLog_walkLeavesAt (page : σ → F → K → E)
    {visit : F × K → ℕ → (ℕ → K) → σ → Except ε σ} (s : σ) (log : VisitLog F K) (idx : ℕ → K) :
    eraseLog (L.walkLeavesAt (fun s => page s.1) (logVisit visit) lvl t ((s, log), idx)) =
      L.walkLeavesAt page visit lvl t (s, idx) := by
  induction lvl generalizing t s log idx with
  | zero => rfl
  | succ lvl ih =>
    unfold walkLeavesAt
    refine eraseLog_foldlM (fun st k => ?_) L.keys ((s, log), idx)
    rcases L.entry_cases (lvl + 1) (page st.1.1 t k) with habsent | ⟨hpresent, hisLeaf⟩ | ⟨c, hc⟩
    · simp only [habsent, Bool.false_eq_true, if_false]
      rfl
    · simp only [hpresent, hisLeaf, if_true, logVisit]
      cases visit (t, k) (lvl + 1) (Function.update st.2 (lvl + 1) k) st.1.1 with
      | ok s' => rfl
      | error e => rfl
    · obtain ⟨hpresent, hisLeaf, rfl⟩ := child_eq_some.mp hc
      simp only [hpresent, hisLeaf, if_true, Bool.false_eq_true, if_false]
      exact ih ..

end Layout

end Foundations
