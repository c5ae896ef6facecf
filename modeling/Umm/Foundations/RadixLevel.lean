import Mathlib.Data.List.Nodup
import Umm.Foundations.RadixPath

/-!
# Mapping at a level above the leaves

`mapAt` may be asked to enter an entry at any level of a path.  `tablesTo` lists the tables that the
walk along a path meets on its way down to a level.  If no leaf ends the walk before, then the entry
is what the walk meets at that level afterwards; what it leads to does not matter, and the other
paths of the table may have leaves of any level.
-/

namespace Foundations

namespace Layout

variable {K E F : Type} (L : Layout K E F)

/-- The tables that the walk along a path meets down to the level `l`. -/
def tablesTo (m : F → K → E) (l : ℕ) : ℕ → F → (ℕ → K) → List F
  | 0, _, _ => []
  | lvl + 1, t, v => t :: if lvl + 1 = l then [] else
      ((L.child (lvl + 1) (m t (v (lvl + 1)))).map fun c => tablesTo m l lvl c v).getD []

variable {L} {m m' : F → K → E} {l lvl : ℕ} {t c : F} {v w : ℕ → K} {e : E}

/-! ## Walks down to a level -/

theorem root_mem_tablesTo : t ∈ L.tablesTo m l (lvl + 1) t v := by
  rw [tablesTo]
  exact List.mem_cons_self

theorem tablesTo_self : L.tablesTo m (lvl + 1) (lvl + 1) t v = [t] := by
  rw [tablesTo, if_pos rfl]

theorem tablesTo_of_child (hl : l ≤ lvl) (hc : L.child (lvl + 1) (m t (v (lvl + 1))) = some c) :
    L.tablesTo m l (lvl + 1) t v = t :: L.tablesTo m l lvl c v := by
  rw [tablesTo, if_neg (by omega), hc, Option.map_some, Option.getD_some]

theorem tablesTo_of_child_none (hc : L.child (lvl + 1) (m t (v (lvl + 1))) = none) :
    L.tablesTo m l (lvl + 1) t v = [t] := by
  rw [tablesTo, hc, Option.map_none, Option.getD_none, ite_self]

/-- The walk down to a level depends only on the tables that it meets. -/
theorem tablesTo_congr (h : ∀ f ∈ L.tablesTo m l lvl t v, m' f = m f) :
    L.tablesTo m' l lvl t v = L.tablesTo m l lvl t v ∧
      L.entryOn m' lvl t v l = L.entryOn m lvl t v l := by
  induction lvl generalizing t with
  | zero => exact ⟨rfl, rfl⟩
  | succ lvl ih =>
    have hroot : m' t = m t := h t root_mem_tablesTo
    rw [tablesTo, tablesTo, entryOn, entryOn, hroot]
    by_cases hl : lvl + 1 = l
    · simp [hl]
    · rw [tablesTo, if_neg hl] at h
      simp only [if_neg hl, if_neg (Ne.symm hl)]
      cases hc : L.child (lvl + 1) (m t (v (lvl + 1))) with
      | none => exact ⟨rfl, rfl⟩
      | some c =>
        rw [hc] at h
        obtain ⟨htables, hentry⟩ := ih fun f hf => h f (List.mem_cons_of_mem t hf)
        exact ⟨congrArg (t :: ·) htables, hentry⟩

/-- The tables on a path are pages of the table. -/
theorem tablesTo_subset {f : F} (hf : f ∈ L.tablesTo m l lvl t v) : f ∈ L.nodes m lvl t := by
  induction lvl generalizing t with
  | zero => cases hf
  | succ lvl ih =>
    rw [tablesTo] at hf
    rcases List.mem_cons.mp hf with rfl | hf
    · exact root_mem_frames
    split_ifs at hf with hl
    · cases hf
    · cases hc : L.child (lvl + 1) (m t (v (lvl + 1))) with
      | none =>
        rw [hc] at hf
        cases hf
      | some c =>
        rw [hc] at hf
        exact nodes_subset_of_child hc (ih hf)

/-- In a tree, the walk meets no table twice. -/
theorem nodup_tablesTo (hsep : L.Separate (fun _ => false) m lvl t) :
    (L.tablesTo m l lvl t v).Nodup := by
  induction lvl generalizing t with
  | zero => exact List.nodup_nil
  | succ lvl ih =>
    obtain ⟨hroot, -, hbelow⟩ := hsep
    rw [tablesTo]
    split_ifs with hl
    · exact List.nodup_singleton t
    · cases hc : L.child (lvl + 1) (m t (v (lvl + 1))) with
      | none => exact List.nodup_singleton t
      | some c =>
        refine List.nodup_cons.mpr ⟨fun hmem => ?_, ih (hbelow _ c hc)⟩
        exact hroot _ (mem_entryFrames_of_child ⟨c, hc, tablesTo_subset hmem⟩)

/-- A walk meets entries of the levels of the table. -/
theorem level_of_entryOn (hentry : L.entryOn m lvl t v l = some e) : l ≤ lvl := by
  induction lvl generalizing t with
  | zero => cases hentry
  | succ lvl ih =>
    rw [entryOn] at hentry
    split_ifs at hentry with hl
    · exact Nat.le_of_eq hl
    · obtain ⟨c, -, hentry⟩ := Option.bind_eq_some_iff.mp hentry
      exact Nat.le_succ_of_le (ih hentry)

/-- The entry of a level depends only on the keys from there up. -/
theorem entryOn_of_agree (hl : l ≤ lvl) (h : ∀ i, l ≤ i → i ≤ lvl → v i = w i) :
    L.entryOn m lvl t v l = L.entryOn m lvl t w l := by
  induction lvl generalizing t with
  | zero => rfl
  | succ lvl ih =>
    rw [entryOn, entryOn, h (lvl + 1) hl (Nat.le_refl _)]
    refine ite_congr rfl (fun _ => rfl) fun hne => ?_
    exact Option.bind_congr fun c _ => ih (by omega) fun i h1 h2 => h i h1 (by omega)

/-! ## Mapping -/

section MapAt

variable {A : Allocator F} {ε : Type}

/-- The walk down to a level meets tables in use, none of them twice, and no leaf above the level. -/
structure OpenTo (L : Layout K E F) (l lvl : ℕ) (h : Heap A (K → E)) (t : F) (v : ℕ → K) : Prop where
  /-- No table is met twice. -/
  nodup : (L.tablesTo h.mem l lvl t v).Nodup
  /-- The tables are in use. -/
  used : ∀ f ∈ L.tablesTo h.mem l lvl t v, ¬ h.IsFree f
  /-- No leaf is met above the level. -/
  no_leaf : ∀ i e, l < i → L.entryOn h.mem lvl t v i = some e → L.present e = true →
    L.isLeaf i e = false

/-- The entry `e` is what the walk along `v` meets at the level `l` of the table `t`, which is the
given one or a new one. -/
structure MappedTo (L : Layout K E F) (l lvl : ℕ) (v : ℕ → K) (e : E) (h : Heap A (K → E))
    (root : Option F) (t : F) (h' : Heap A (K → E)) : Prop where
  /-- An existing table keeps its place. -/
  root_eq : ∀ r, root = some r → t = r
  /-- The walk meets the entry. -/
  entry : L.entryOn h'.mem lvl t v l = some e
  /-- The tables on the way were there, or were free. -/
  tables_subset : ∀ f ∈ L.tablesTo h'.mem l lvl t v,
    (∃ r, root = some r ∧ f ∈ L.tablesTo h.mem l lvl r v) ∨ h.IsFree f
  /-- Nothing else has been written. -/
  mem_eq : ∀ f ∉ L.tablesTo h'.mem l lvl t v, h'.mem f = h.mem f

variable [DecidableEq F] [DecidableEq K] {h h₁ h₂ : Heap A (K → E)} {root : Option F} {oom : ε}

omit [DecidableEq F] [DecidableEq K] in
/-- A walk that is open stays so below the root. -/
theorem OpenTo.child (h : L.OpenTo l (lvl + 1) h₁ t v) (hl : l ≤ lvl)
    (hc : L.child (lvl + 1) (h₁.mem t (v (lvl + 1))) = some c) : L.OpenTo l lvl h₁ c v := by
  obtain ⟨hnodup, hused, hno_leaf⟩ := h
  rw [tablesTo_of_child hl hc] at hnodup hused
  refine ⟨(List.nodup_cons.mp hnodup).2, fun f hf => hused f (List.mem_cons_of_mem t hf),
    fun i e hi hentry => hno_leaf i e hi ?_⟩
  rw [entryOn_below (level_of_entryOn hentry), hc]
  exact hentry

omit [DecidableEq F] [DecidableEq K] in
/-- The table below an open root does not come back to it. -/
theorem OpenTo.root_not_mem (h : L.OpenTo l (lvl + 1) h₁ t v) (hl : l ≤ lvl)
    (hmapped : L.MappedTo l lvl v e h₁ (L.child (lvl + 1) (h₁.mem t (v (lvl + 1)))) c h₂) :
    t ∉ L.tablesTo h₂.mem l lvl c v := by
  intro hmem
  rcases hmapped.tables_subset t hmem with ⟨r, hr, hmem⟩ | hfree
  · have hnodup := h.nodup
    rw [tablesTo_of_child hl hr] at hnodup
    exact (List.nodup_cons.mp hnodup).1 hmem
  · exact h.used t root_mem_tablesTo hfree

omit [DecidableEq F] [DecidableEq K] in
/-- What has been mapped below the root has been mapped in the table, once the root leads there. -/
theorem MappedTo.of_child {h₃ : Heap A (K → E)} (hl : l ≤ lvl)
    (hmapped : L.MappedTo l lvl v e h₁ (L.child (lvl + 1) (h₁.mem t (v (lvl + 1)))) c h₂)
    (hnot : t ∉ L.tablesTo h₂.mem l lvl c v)
    (hchild : L.child (lvl + 1) (h₃.mem t (v (lvl + 1))) = some c)
    (hsame : ∀ f ≠ t, h₃.mem f = h₂.mem f) : L.MappedTo l (lvl + 1) v e h₁ (some t) t h₃ := by
  have hpages : ∀ f ∈ L.tablesTo h₂.mem l lvl c v, h₃.mem f = h₂.mem f :=
    fun f hf => hsame f (ne_of_mem_of_not_mem hf hnot)
  obtain ⟨htables, hentry⟩ := tablesTo_congr hpages
  refine ⟨fun r hr => Option.some.inj hr, ?_, fun f hf => ?_, fun f hf => ?_⟩
  · rw [entryOn_below hl, hchild]
    exact hentry.trans hmapped.entry
  · rw [tablesTo_of_child hl hchild, htables] at hf
    rcases List.mem_cons.mp hf with rfl | hf
    · exact Or.inl ⟨_, rfl, root_mem_tablesTo⟩
    · refine (hmapped.tables_subset f hf).imp_left fun ⟨r, hr, hf⟩ => ⟨t, rfl, ?_⟩
      rw [tablesTo_of_child hl hr]
      exact List.mem_cons_of_mem t hf
  · rw [tablesTo_of_child hl hchild, htables, List.mem_cons, not_or] at hf
    rw [hsame f hf.1, hmapped.mem_eq f hf.2]

omit [DecidableEq F] [DecidableEq K] in
/-- What has been mapped into a new table has been mapped without a table to start with. -/
theorem MappedTo.of_filled {h₃ : Heap A (K → E)} (hfill : h.Filled t (fun _ => L.empty) h₁)
    (hmapped : L.MappedTo l (lvl + 1) v e h₁ (some t) t h₃) :
    L.MappedTo l (lvl + 1) v e h none t h₃ := by
  have hnone : L.child (lvl + 1) (h₁.mem t (v (lvl + 1))) = none := by
    rw [hfill.mem_self, child, L.present_empty, Bool.false_and, if_neg Bool.false_ne_true]
  refine ⟨fun r hr => (by cases hr), hmapped.entry, fun f hf => Or.inr ?_, fun f hf => ?_⟩
  · rcases hmapped.tables_subset f hf with ⟨r, hr, hf⟩ | hfree
    · obtain rfl := Option.some.inj hr
      rw [tablesTo_of_child_none hnone, List.mem_singleton] at hf
      exact hf ▸ hfill.free
    · exact ((hfill.isFree f).mp hfree).1
  · rw [hmapped.mem_eq f hf, hfill.mem_eq f fun heq => hf (heq ▸ root_mem_tablesTo)]

omit [DecidableEq K] in
/-- The table to map into is open: it is the given one, or a new one without entries. -/
theorem getTable_openTo (hroot : ∀ r, root = some r → L.OpenTo l (lvl + 1) h r v) :
    Outcome (L.getTable oom root h) (fun p => L.OpenTo l (lvl + 1) p.2 p.1 v ∧
      (root = some p.1 ∧ p.2 = h ∨ root = none ∧ h.Filled p.1 (fun _ => L.empty) p.2)) (· = oom) := by
  cases root with
  | some t => exact ⟨hroot t rfl, Or.inl ⟨rfl, rfl⟩⟩
  | none =>
    refine outcome_bind.mpr (Heap.alloc_outcome rfl fun t h₁ halloc => ?_)
    have hfill := halloc.filled fun _ => L.empty
    have hnone : L.child (lvl + 1) ((h₁.setPage t fun _ => L.empty).mem t (v (lvl + 1))) = none := by
      rw [hfill.mem_self, child, L.present_empty, Bool.false_and, if_neg Bool.false_ne_true]
    refine ⟨⟨?_, fun f hf => ?_, fun i e _ hentry hpresent => ?_⟩, Or.inr ⟨rfl, hfill⟩⟩
    · rw [tablesTo_of_child_none hnone]
      exact List.nodup_singleton t
    · rw [tablesTo_of_child_none hnone, List.mem_singleton] at hf
      rw [hf, hfill.isFree]
      exact fun hfree => hfree.2 rfl
    · rw [entryOn, hnone] at hentry
      split_ifs at hentry
      · rw [← Option.some.inj hentry, hfill.mem_self, L.present_empty] at hpresent
        cases hpresent
      · cases hentry

/-- Mapping at a level enters the entry there, if the walk is open down to the level. -/
theorem mapAt_mappedTo (h1 : 1 ≤ l) (hl : l ≤ lvl) (htop : lvl ≤ L.top)
    (hroot : ∀ r, root = some r → L.OpenTo l lvl h r v) :
    Outcome (L.mapAt oom e v l lvl root h) (fun p => L.MappedTo l lvl v e h root p.1 p.2)
      (· = oom) := by
  induction lvl generalizing root h with
  | zero => omega
  | succ lvl ih =>
    unfold mapAt
    refine outcome_bind.mpr ((getTable_openTo hroot).mono ?_ fun _ h => h)
    rintro ⟨t, h₁⟩ ⟨hopen, hstart⟩
    have hfinish : ∀ h₃, L.MappedTo l (lvl + 1) v e h₁ (some t) t h₃ →
        L.MappedTo l (lvl + 1) v e h root t h₃ := by
      rintro h₃ hmapped
      rcases hstart with ⟨rfl, rfl⟩ | ⟨rfl, hfill⟩
      · exact hmapped
      · exact hmapped.of_filled hfill
    dsimp only
    by_cases hend : lvl + 1 = l
    · subst hend
      rw [if_pos rfl]
      refine hfinish _ ⟨fun r hr => Option.some.inj hr, ?_, fun f hf => Or.inl ⟨t, rfl, ?_⟩,
        fun f hf => ?_⟩
      · simp [entryOn_root, setEntry]
      · rwa [tablesTo_self] at hf ⊢
      · rw [tablesTo_self, List.mem_singleton] at hf
        exact Heap.mem_setPage_of_ne _ _ hf
    rw [if_neg hend]
    have hle : l ≤ lvl := by omega
    cases hcur : L.present (h₁.mem t (v (lvl + 1))) with
    | true =>
      have hentry := hopen.no_leaf (lvl + 1) _ (by omega) entryOn_root hcur
      have hchild := child_eq_some.mpr ⟨hcur, hentry, rfl⟩
      rw [if_pos rfl]
      refine outcome_bind.mpr ((ih hle (by omega) fun r hr => ?_).mono ?_ fun _ h => h)
      · exact hopen.child hle (hchild.trans hr)
      rintro ⟨c, h₂⟩ hmapped
      obtain rfl := hmapped.root_eq _ rfl
      rw [← hchild] at hmapped
      have hnot := hopen.root_not_mem hle hmapped
      refine hfinish h₂ (hmapped.of_child hle hnot ?_ fun _ _ => rfl)
      rw [hmapped.mem_eq t hnot, hchild]
    | false =>
      have hnone : L.child (lvl + 1) (h₁.mem t (v (lvl + 1))) = none := by
        simp [child, hcur]
      rw [if_neg Bool.false_ne_true]
      refine outcome_bind.mpr ((ih hle (by omega) fun r hr => (by cases hr)).mono ?_ fun _ h => h)
      rintro ⟨c, h₂⟩ hmapped
      rw [← hnone] at hmapped
      have hnot := hopen.root_not_mem hle hmapped
      refine hfinish _ (hmapped.of_child hle hnot ?_ fun f hf => Heap.mem_setPage_of_ne _ _ hf)
      have hself : (setEntry h₂ t (v (lvl + 1)) (L.link c)).mem t (v (lvl + 1)) = L.link c := by
        simp [setEntry]
      rw [hself, child_link (by omega) htop]

end MapAt

end Layout

end Foundations
