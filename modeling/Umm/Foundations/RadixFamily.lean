import Mathlib.Data.Set.Disjoint
import Mathlib.Logic.Function.Basic
import Umm.Foundations.RadixMap

/-!
# Families of radix trees

Several tables live in one heap.  `Evolves` is what one of them may do while the others do not
notice: it writes only what it holds and what was free, and takes only free frames.  `Builds` says
in addition that the frames of its leaves are not written.

`Apart` is the invariant of the family: no two tables hold the same frame, and no table holds a
pinned frame, which nobody allocates either.  A table that evolves, or is freed, keeps it.  `Accounts`
says where the allocated frames are: what has been allocated since some state is held by a table.
-/

namespace Foundations

variable {K E F ι : Type}

namespace Layout

variable {A : Allocator F} {ε : Type} (L : Layout K E F) (own : E → Bool) (P : ℕ → E → Prop)

/-- What a table holds, if there is one. -/
def held (lvl : ℕ) (h : Heap A (K → E)) (root : Option F) : Set F :=
  {f | ∃ t, root = some t ∧ f ∈ L.frames own h.mem lvl t}

/-- A table has changed, or appeared, or gone out of sight. -/
structure Evolves (lvl : ℕ) (h : Heap A (K → E)) (root : Option F) (h' : Heap A (K → E))
    (root' : Option F) : Prop where
  /-- The table may be mapped into. -/
  mappable : ∀ t, root' = some t → L.Mappable own P lvl h' t
  /-- It holds what it held, and frames that were free. -/
  held_subset : ∀ f ∈ L.held own lvl h' root', f ∈ L.held own lvl h root ∨ h.IsFree f
  /-- Nothing has been freed. -/
  isFree : ∀ f, h'.IsFree f → h.IsFree f
  /-- Only what the table held and what was free has been written. -/
  mem_eq : ∀ f, ¬ h.IsFree f → f ∉ L.held own lvl h root → h'.mem f = h.mem f
  /-- Nothing has been freed. -/
  freeCalls : h'.freeCalls = h.freeCalls

/-- A table has grown, or changed some of its leaves. -/
structure Builds (lvl : ℕ) (h : Heap A (K → E)) (root : Option F) (h' : Heap A (K → E))
    (root' : Option F) : Prop extends L.Evolves own P lvl h root h' root' where
  /-- An existing table keeps its place. -/
  root_eq : ∀ r, root = some r → root' = some r
  /-- The new pages of the table were free. -/
  nodes_subset : ∀ f ∈ L.held (fun _ => false) lvl h' root',
    f ∈ L.held (fun _ => false) lvl h root ∨ h.IsFree f
  /-- Only pages of the table and what was free have been written. -/
  page_eq : ∀ f, ¬ h.IsFree f → f ∉ L.held (fun _ => false) lvl h root → h'.mem f = h.mem f

/-- A table has kept what it held, and has everything that has been allocated. -/
structure Claims (lvl : ℕ) (h : Heap A (K → E)) (root : Option F) (h' : Heap A (K → E))
    (root' : Option F) : Prop where
  /-- The table keeps what it held. -/
  held_mono : L.held own lvl h root ⊆ L.held own lvl h' root'
  /-- It has what has been allocated. -/
  taken : ∀ f, h.IsFree f → ¬ h'.IsFree f → f ∈ L.held own lvl h' root'

section Builds

variable {L own P} {lvl : ℕ} {h h₁ h₂ h₃ : Heap A (K → E)} {root root₁ root₂ : Option F} {r t : F}
  {v : ℕ → K} {e : E}

theorem mem_held {f : F} : f ∈ L.held own lvl h (some t) ↔ f ∈ L.frames own h.mem lvl t :=
  ⟨fun ⟨_, ht, hf⟩ => Option.some.inj ht ▸ hf, fun hf => ⟨t, rfl, hf⟩⟩

theorem nodes_subset_held {f : F} (hf : f ∈ L.held (fun _ => false) lvl h root) :
    f ∈ L.held own lvl h root :=
  hf.imp fun _ ht => ⟨ht.1, nodes_subset_frames _ _ ht.2⟩

/-- A table that does not change its place and whose pages are not written stays as it is. -/
theorem Mappable.congr (ht : L.Mappable own P lvl h t)
    (hmem : ∀ f ∈ L.nodes h.mem lvl t, h₁.mem f = h.mem f)
    (hfree : ∀ f, h₁.IsFree f → h.IsFree f) : L.Mappable own P lvl h₁ t where
  separate := separate_congr hmem ht.separate
  entries := entries_congr hmem ht.entries
  used := fun f hf hfree' => ht.used f (frames_congr hmem ▸ hf) (hfree f hfree')

theorem Builds.refl (hroot : ∀ r, root = some r → L.Mappable own P lvl h r) :
    L.Builds own P lvl h root h root where
  mappable := hroot
  held_subset := fun _ hf => Or.inl hf
  isFree := fun _ hf => hf
  mem_eq := fun _ _ _ => rfl
  freeCalls := rfl
  root_eq := fun _ hr => hr
  nodes_subset := fun _ hf => Or.inl hf
  page_eq := fun _ _ _ => rfl

theorem Evolves.trans (h₁₂ : L.Evolves own P lvl h root h₁ root₁)
    (h₂₃ : L.Evolves own P lvl h₁ root₁ h₂ root₂) : L.Evolves own P lvl h root h₂ root₂ where
  mappable := h₂₃.mappable
  held_subset := by
    intro f hf
    rcases h₂₃.held_subset f hf with hf | hf
    · exact h₁₂.held_subset f hf
    · exact Or.inr (h₁₂.isFree f hf)
  isFree := fun f hf => h₁₂.isFree f (h₂₃.isFree f hf)
  mem_eq := by
    intro f hfree hf
    rw [h₂₃.mem_eq f (fun hfree' => hfree (h₁₂.isFree f hfree')), h₁₂.mem_eq f hfree hf]
    exact fun hf' => (h₁₂.held_subset f hf').elim hf hfree
  freeCalls := h₂₃.freeCalls.trans h₁₂.freeCalls

theorem Builds.trans (h₁₂ : L.Builds own P lvl h root h₁ root₁)
    (h₂₃ : L.Builds own P lvl h₁ root₁ h₂ root₂) : L.Builds own P lvl h root h₂ root₂ where
  toEvolves := h₁₂.toEvolves.trans h₂₃.toEvolves
  root_eq := fun r hr => h₂₃.root_eq r (h₁₂.root_eq r hr)
  nodes_subset := by
    intro f hf
    rcases h₂₃.nodes_subset f hf with hf | hf
    · exact h₁₂.nodes_subset f hf
    · exact Or.inr (h₁₂.isFree f hf)
  page_eq := by
    intro f hfree hf
    rw [h₂₃.page_eq f (fun hfree' => hfree (h₁₂.isFree f hfree')), h₁₂.page_eq f hfree hf]
    exact fun hf' => (h₁₂.nodes_subset f hf').elim hf hfree

/-- Mapping a leaf builds, when the leaf does not own its frame or the frame has just been
allocated: `h₁` is the heap after the allocation. -/
theorem Mapped.builds (hroot : ∀ r, root = some r → L.Mappable own P lvl h r)
    (hfree : ∀ f, h₁.IsFree f → h.IsFree f) (hmem : ∀ f, ¬ h.IsFree f → h₁.mem f = h.mem f)
    (hcalls : h₁.freeCalls = h.freeCalls)
    (hnew : own e = true → h.IsFree (L.next 1 e) ∧ ¬ h₁.IsFree (L.next 1 e))
    (hmapped : L.Mapped own P lvl v e h₁ root t h₂) :
    L.Builds own P lvl h root h₂ (some t) := by
  have hsame : ∀ r, root = some r → ∀ f ∈ L.nodes h.mem lvl r, h₁.mem f = h.mem f :=
    fun r hr f hf => hmem f ((hroot r hr).used f (nodes_subset_frames lvl r hf))
  have hframes : ∀ own' r, root = some r →
      L.frames own' h₁.mem lvl r = L.frames own' h.mem lvl r :=
    fun own' r hr => frames_congr (hsame r hr)
  have hnodes : ∀ f ∈ L.nodes h₂.mem lvl t,
      f ∈ L.held (fun _ => false) lvl h root ∨ h.IsFree f := by
    intro f hf
    rcases hmapped.nodes_subset f hf with ⟨r, hr, hf⟩ | hf
    · exact Or.inl ⟨r, hr, hframes _ r hr ▸ hf⟩
    · exact Or.inr (hfree f hf)
  have hpage : ∀ f, ¬ h.IsFree f → f ∉ L.held (fun _ => false) lvl h root →
      h₂.mem f = h.mem f := by
    intro f hused hf
    rw [hmapped.mem_eq f fun hf' => (hnodes f hf').elim hf hused, hmem f hused]
  refine { mappable := fun t' ht' => ?_, held_subset := fun f hf => ?_, isFree := fun f hf => ?_,
           mem_eq := fun f hused hf => hpage f hused fun hf' => hf (nodes_subset_held hf'),
           freeCalls := hmapped.freeCalls.trans hcalls,
           root_eq := fun r hr => congrArg some (hmapped.root_eq r hr),
           nodes_subset := fun f hf => hnodes f (mem_held.mp hf), page_eq := hpage }
  · obtain rfl := Option.some.inj ht'
    refine ⟨hmapped.separate, hmapped.entries, fun f hf hfree₂ => ?_⟩
    obtain ⟨hfree₁, hnode⟩ := (hmapped.isFree f).mp hfree₂
    rcases mem_frames_cases hf with hf | ⟨w, l, e', hw, hown, rfl⟩
    · exact hnode hf
    · rcases hmapped.leaf w with ⟨-, hleaf⟩ | ⟨-, hleaf⟩
      · obtain ⟨rfl, rfl⟩ := Prod.mk.inj (Option.some.inj (hleaf.symm.trans hw))
        exact (hnew hown).2 hfree₁
      · obtain ⟨r, hr, hleaf⟩ := Option.bind_eq_some_iff.mp (hleaf.symm.trans hw)
        refine (hroot r hr).used _ ?_ (hfree _ hfree₁)
        rw [← hframes own r hr]
        exact mem_frames_of_owned hleaf hown
  · rcases hmapped.frames_subset f (mem_held.mp hf) with ⟨r, hr, hf⟩ | hf | ⟨hown, rfl⟩
    · exact Or.inl ⟨r, hr, by rwa [hframes _ r hr] at hf⟩
    · exact Or.inr (hfree f hf)
    · exact Or.inr (hnew hown).1
  · exact hfree f ((hmapped.isFree f).mp hf).1

theorem Claims.refl (h : Heap A (K → E)) (root : Option F) : L.Claims own lvl h root h root where
  held_mono := Set.Subset.rfl
  taken := fun _ hfree hused => absurd hfree hused

theorem Claims.trans (h₁₂ : L.Claims own lvl h root h₁ root₁)
    (h₂₃ : L.Claims own lvl h₁ root₁ h₂ root₂) : L.Claims own lvl h root h₂ root₂ where
  held_mono := h₁₂.held_mono.trans h₂₃.held_mono
  taken := by
    intro f hfree hused
    by_cases hfree₁ : h₁.IsFree f
    · exact h₂₃.taken f hfree₁ hused
    · exact h₂₃.held_mono (h₁₂.taken f hfree hfree₁)

/-- Mapping a leaf claims what it allocates, when it overwrites no leaf that owns its frame and its
own frame is all that has been allocated before. -/
theorem Mapped.claims (hroot : ∀ r, root = some r → L.Mappable own P lvl h r)
    (hmem : ∀ f, ¬ h.IsFree f → h₁.mem f = h.mem f)
    (htaken : ∀ f, h.IsFree f → ¬ h₁.IsFree f → own e = true ∧ f = L.next 1 e)
    (hover : ∀ r, root = some r → ∀ l e₀, L.leaf h.mem lvl r v = some (l, e₀) → own e₀ = false)
    (hmapped : L.Mapped own P lvl v e h₁ root t h₂) : L.Claims own lvl h root h₂ (some t) := by
  have hleaf : ∀ w l e', L.leaf h₂.mem lvl t w = some (l, e') → own e' = true →
      L.next l e' ∈ L.held own lvl h₂ (some t) :=
    fun w l e' hw hown => mem_held.mpr (mem_frames_of_owned hw hown)
  refine ⟨fun f ⟨r, hr, hf⟩ => ?_, fun f hfree hused => ?_⟩
  · have hsame : ∀ f ∈ L.nodes h.mem lvl r, h₁.mem f = h.mem f :=
      fun f hf => hmem f ((hroot r hr).used f (nodes_subset_frames lvl r hf))
    rcases mem_frames_cases hf with hnode | ⟨w, l, e', hw, hown, rfl⟩
    · refine nodes_subset_held (mem_held.mpr (hmapped.nodes_mono r hr ?_))
      exact (frames_congr hsame).symm.subset hnode
    · rcases hmapped.leaf w with ⟨hagree, -⟩ | ⟨-, hkept⟩
      · rw [leaf_of_agree hagree] at hw
        rw [hover r hr l e' hw] at hown
        cases hown
      · rw [hr, Option.bind_some, leaf_congr hsame, hw] at hkept
        exact hleaf w l e' hkept hown
  · by_cases hfree₁ : h₁.IsFree f
    · by_contra hnot
      refine hused ((hmapped.isFree f).mpr ⟨hfree₁, fun hnode => hnot ?_⟩)
      exact nodes_subset_held (mem_held.mpr hnode)
    · obtain ⟨hown, rfl⟩ := htaken f hfree hfree₁
      rcases hmapped.leaf v with ⟨-, hentered⟩ | ⟨hnot, -⟩
      · exact hleaf v 1 e hentered hown
      · exact absurd (fun _ _ _ => rfl) hnot

end Builds

/-! ## The family -/

/-- The tables of a family hold frames of their own, and no pinned frames. -/
structure Apart (lvl : ℕ) (pinned : Set F) (h : Heap A (K → E)) (root : ι → Option F) : Prop where
  /-- The tables may be mapped into. -/
  mappable : ∀ i t, root i = some t → L.Mappable own P lvl h t
  /-- No frame is held by two tables. -/
  disjoint : ∀ i j, i ≠ j → Disjoint (L.held own lvl h (root i)) (L.held own lvl h (root j))
  /-- Pinned frames are in use. -/
  used_of_pinned : ∀ f ∈ pinned, ¬ h.IsFree f
  /-- No table holds a pinned frame. -/
  not_pinned : ∀ i, ∀ f ∈ L.held own lvl h (root i), f ∉ pinned

section Apart

variable {L own P} {lvl : ℕ} {pinned : Set F} {h h' : Heap A (K → E)} {root : ι → Option F}
  {i j : ι} {root' : Option F}

theorem Apart.used (hapart : L.Apart own P lvl pinned h root) {f : F}
    (hf : f ∈ L.held own lvl h (root i)) : ¬ h.IsFree f := by
  obtain ⟨t, ht, hf⟩ := hf
  exact (hapart.mappable i t ht).used f hf

/-- The other tables do not notice a table that evolves. -/
theorem Apart.mem_eq (hapart : L.Apart own P lvl pinned h root)
    (hevolves : L.Evolves own P lvl h (root i) h' root') (hij : j ≠ i) {f : F}
    (hf : f ∈ L.held own lvl h (root j)) : h'.mem f = h.mem f :=
  hevolves.mem_eq f (hapart.used hf) fun hf' =>
    Set.disjoint_left.mp (hapart.disjoint j i hij) hf hf'

/-- Pinned frames are not written by a table that evolves. -/
theorem Apart.pinned_mem_eq (hapart : L.Apart own P lvl pinned h root)
    (hevolves : L.Evolves own P lvl h (root i) h' root') {f : F} (hf : f ∈ pinned) :
    h'.mem f = h.mem f :=
  hevolves.mem_eq f (hapart.used_of_pinned f hf) fun hf' => hapart.not_pinned i f hf' hf

theorem Apart.node_mem_eq (hapart : L.Apart own P lvl pinned h root)
    (hevolves : L.Evolves own P lvl h (root i) h' root') (hij : j ≠ i) {u : F}
    (hu : root j = some u) : ∀ f ∈ L.nodes h.mem lvl u, h'.mem f = h.mem f :=
  fun _ hf => hapart.mem_eq hevolves hij ⟨u, hu, nodes_subset_frames lvl u hf⟩

theorem Apart.held_eq (hapart : L.Apart own P lvl pinned h root)
    (hevolves : L.Evolves own P lvl h (root i) h' root') (hij : j ≠ i) (own' : E → Bool) :
    L.held own' lvl h' (root j) = L.held own' lvl h (root j) := by
  ext f
  refine exists_congr fun u => and_congr_right fun hu => ?_
  rw [frames_congr (hapart.node_mem_eq hevolves hij hu)]

variable [DecidableEq ι]

/-- A table that evolves keeps the family apart. -/
theorem Apart.evolve (hapart : L.Apart own P lvl pinned h root)
    (hevolves : L.Evolves own P lvl h (root i) h' root') :
    L.Apart own P lvl pinned h' (Function.update root i root') := by
  have hnew : ∀ j ≠ i, Disjoint (L.held own lvl h' root') (L.held own lvl h' (root j)) := by
    intro j hij
    rw [hapart.held_eq hevolves hij]
    refine Set.disjoint_left.mpr fun f hf hf' => ?_
    rcases hevolves.held_subset f hf with hf | hf
    · exact Set.disjoint_left.mp (hapart.disjoint j i hij) hf' hf
    · exact hapart.used hf' hf
  refine ⟨fun j t ht => ?_, fun j k hjk => ?_, fun f hf hfree => ?_, fun j f hf => ?_⟩
  · by_cases hj : j = i
    · subst hj
      rw [Function.update_self] at ht
      exact hevolves.mappable t ht
    · rw [Function.update_of_ne hj] at ht
      exact (hapart.mappable j t ht).congr (hapart.node_mem_eq hevolves hj ht) hevolves.isFree
  · by_cases hj : j = i
    · subst hj
      rw [Function.update_self, Function.update_of_ne (Ne.symm hjk)]
      exact hnew k (Ne.symm hjk)
    · rw [Function.update_of_ne hj]
      by_cases hk : k = i
      · subst hk
        rw [Function.update_self]
        exact (hnew j hj).symm
      · rw [Function.update_of_ne hk, hapart.held_eq hevolves hj, hapart.held_eq hevolves hk]
        exact hapart.disjoint j k hjk
  · exact hapart.used_of_pinned f hf (hevolves.isFree f hfree)
  · by_cases hj : j = i
    · subst hj
      rw [Function.update_self] at hf
      rcases hevolves.held_subset f hf with hf | hf
      · exact hapart.not_pinned j f hf
      · exact fun hpinned => hapart.used_of_pinned f hpinned hf
    · rw [Function.update_of_ne hj, hapart.held_eq hevolves hj] at hf
      exact hapart.not_pinned j f hf

/-- Freeing what a table holds, and forgetting it, keeps the family apart. -/
theorem Apart.freed (hapart : L.Apart own P lvl pinned h root)
    (hfreed : Heap.Freed (L.held own lvl h (root i)) h h') :
    L.Apart own P lvl pinned h' (Function.update root i none) := by
  have hheld : ∀ root, L.held own lvl h' root = L.held own lvl h root := by
    intro root
    rw [held, held, hfreed.mem]
  have hnone : L.held own lvl h' (none : Option F) = ∅ :=
    Set.eq_empty_of_forall_notMem fun f ⟨_, ht, _⟩ => by cases ht
  refine ⟨fun j t ht => ?_, fun j k hjk => ?_, fun f hf hfree => ?_, fun j f hf => ?_⟩
  · by_cases hj : j = i
    · subst hj
      rw [Function.update_self] at ht
      cases ht
    · rw [Function.update_of_ne hj] at ht
      obtain ⟨hsep, hentries, hused⟩ := hapart.mappable j t ht
      refine ⟨hfreed.mem ▸ hsep, hfreed.mem ▸ hentries, fun f hf hfree => ?_⟩
      rw [hfreed.mem] at hf
      rcases (hfreed.isFree f).mp hfree with hfree | hfree
      · exact hused f hf hfree
      · exact Set.disjoint_left.mp (hapart.disjoint j i hj) ⟨t, ht, hf⟩ hfree
  · by_cases hj : j = i
    · subst hj
      rw [Function.update_self, hnone]
      exact Set.empty_disjoint _
    · rw [Function.update_of_ne hj]
      by_cases hk : k = i
      · subst hk
        rw [Function.update_self, hnone]
        exact Set.disjoint_empty _
      · rw [Function.update_of_ne hk, hheld, hheld]
        exact hapart.disjoint j k hjk
  · rcases (hfreed.isFree f).mp hfree with hfree | hfree
    · exact hapart.used_of_pinned f hf hfree
    · exact hapart.not_pinned i f hfree hf
  · by_cases hj : j = i
    · subst hj
      rw [Function.update_self, hnone] at hf
      exact absurd hf (Set.notMem_empty f)
    · rw [Function.update_of_ne hj, hheld] at hf
      exact hapart.not_pinned j f hf

/-! ## What has been allocated -/

/-- Of the frames of `S`, which were free once, those that have been allocated are held by a table, and
the tables hold nothing else. -/
structure Accounts (L : Layout K E F) (own : E → Bool) (lvl : ℕ) (S : Set F) (h : Heap A (K → E))
    (root : ι → Option F) : Prop where
  /-- Nothing else has become free. -/
  free : ∀ f, h.IsFree f → f ∈ S
  /-- The tables hold what was free. -/
  held : ∀ i, ∀ f ∈ L.held own lvl h (root i), f ∈ S
  /-- What has been allocated is held. -/
  taken : ∀ f ∈ S, ¬ h.IsFree f → ∃ i, f ∈ L.held own lvl h (root i)

variable {S : Set F}

/-- A table that claims what is allocated keeps the account. -/
theorem Accounts.evolve (haccounts : L.Accounts own lvl S h root)
    (hapart : L.Apart own P lvl pinned h root)
    (hevolves : L.Evolves own P lvl h (root i) h' root')
    (hclaims : L.Claims own lvl h (root i) h' root') :
    L.Accounts own lvl S h' (Function.update root i root') where
  free := fun f hf => haccounts.free f (hevolves.isFree f hf)
  held := by
    intro j f hf
    by_cases hj : j = i
    · subst hj
      rw [Function.update_self] at hf
      rcases hevolves.held_subset f hf with hf | hf
      · exact haccounts.held j f hf
      · exact haccounts.free f hf
    · rw [Function.update_of_ne hj, hapart.held_eq hevolves hj] at hf
      exact haccounts.held j f hf
  taken := by
    intro f hS hused
    by_cases hfree : h.IsFree f
    · refine ⟨i, ?_⟩
      rw [Function.update_self]
      exact hclaims.taken f hfree hused
    · obtain ⟨j, hj⟩ := haccounts.taken f hS hfree
      refine ⟨j, ?_⟩
      by_cases hji : j = i
      · subst hji
        rw [Function.update_self]
        exact hclaims.held_mono hj
      · rwa [Function.update_of_ne hji, hapart.held_eq hevolves hji]

/-- So does freeing what a table holds, and forgetting it. -/
theorem Accounts.freed (haccounts : L.Accounts own lvl S h root)
    (hfreed : Heap.Freed (L.held own lvl h (root i)) h h') :
    L.Accounts own lvl S h' (Function.update root i none) where
  free := fun f hf => ((hfreed.isFree f).mp hf).elim (haccounts.free f) (haccounts.held i f)
  held := by
    intro j f hf
    by_cases hj : j = i
    · subst hj
      rw [Function.update_self] at hf
      obtain ⟨_, hnone, -⟩ := hf
      cases hnone
    · rw [Function.update_of_ne hj, Layout.held, hfreed.mem] at hf
      exact haccounts.held j f hf
  taken := by
    intro f hS hused
    have hkept : ¬ h.IsFree f ∧ f ∉ L.held own lvl h (root i) := by
      rw [hfreed.isFree] at hused
      exact not_or.mp hused
    obtain ⟨j, hj⟩ := haccounts.taken f hS hkept.1
    have hji : j ≠ i := fun heq => hkept.2 (heq ▸ hj)
    refine ⟨j, ?_⟩
    rwa [Function.update_of_ne hji, Layout.held, hfreed.mem]

end Apart

end Layout

end Foundations
